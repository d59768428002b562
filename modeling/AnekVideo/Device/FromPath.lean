/-
  AnekVideo.Device.FromPath

  `av_device_new_from_path`, which puts the parts together: it can return a
  device none of whose buffers is mapped, and a failure leaves the server as
  it was exactly when the path could be opened.
-/
import AnekVideo.Device.Free

namespace AnekVideo

open Interact

/-- The number and file of a new descriptor are gone once it is closed. -/
theorem FdTable.close_open (F : FdTable) (n : Nat) (hn : n ∉ F.entries.map Prod.fst) :
    ((F.open' n hn).close n).entries = F.entries := by
  have hkeep : F.entries.filter (fun x => decide ((x.1 : Int) ≠ n)) = F.entries := by
    refine List.filter_eq_self.2 fun x hx => decide_eq_true fun h => hn ?_
    exact List.mem_map.2 ⟨x, hx, Int.ofNat.inj h⟩
  simp only [FdTable.close, FdTable.open', List.filter_cons, ne_eq, not_true_eq_false, decide_false,
    Bool.false_eq_true, if_false]
  exact hkeep

namespace Machine

variable {D : Driver} {stop : Sys → Prop} {k k' : Machine} {path : String} {server dev : Nat}
    {c : Chunk}

/-- A call of `av_device_new_from_path` that returned NULL.  Only where the path could
    not be opened the new chunk is still under the server. -/
def FailedAttempt (D : Driver) (path : String) (server : Nat) (c : Chunk) (k k' : Machine) : Prop :=
  k'.fds.entries = k.fds.entries ∧
    ((D.opens path = true ∧ k'.chunks server = some c) ∨
    (D.opens path = false ∧ ∃ dev, k'.chunks server =
      some { c with children := dev :: c.children }))

/-- A call that returned the device `dev`: it is what a setup left. -/
def NewDevice (D : Driver) (path : String) (server : Nat) (c : Chunk) (k : Machine) (dev : Nat)
    (k' : Machine) : Prop :=
  ∃ (n : Nat) (hn : _) (s s' : Nat) (d d' : AvDevice), D.opens path = true ∧
    (∃ cap, D.answers .querycap (.ok cap) = true) ∧ dev ≠ 0 ∧
    k.chunks dev = none ∧ d.buf.length = 0 ∧ 0 < d.frames.length ∧ SameDevice d d' ∧
    Buffers D
      ({ (k.setChunk server (some { c with children := dev :: c.children })).opened n hn s with
        signals := s' } : Machine) dev server [] d' k'

theorem fromPath_ends (D : Driver) (path : String) (stop : Sys → Prop)
    (hs : k.chunks server = some c) (hcount : stop .abort ∨
      ∀ rb rb', D.answers (.reqbufs rb) (.ok rb') = true → 2 < rb'.count) :
    Ends (sem D) stop (fun r k' => (r = 0 ∧ FailedAttempt D path server c k k' ∧
      (D.opens path = true → ¬ Passes D)) ∨ NewDevice D path server c k r k')
      (avDeviceNewFromPath server path) k := by
  refine log_then (deviceNew_then hs fun dev h0 hne hfree => ?_)
  rw [if_neg h0]
  generalize hk₁ : k.setChunk server (some { c with children := dev :: c.children }) = k₁
  have hserver : k₁.chunks server = some { c with children := dev :: c.children } := by
    rw [← hk₁, setChunk_chunks_self]
  have hfds : k₁.fds = k.fds := by rw [← hk₁]; rfl
  refine .seq (setup_ends (D := D) (k := k₁) h0 rfl (Nat.zero_lt_succ 5) hcount)
    fun r k₂ hset => ?_
  rcases hset with ⟨hp, rfl, rfl⟩ | ⟨hp, n, hn, s, d, hdn, hlen, hslots, hset, hcap⟩
  · -- the path does not open: the destructor cannot close -1
    rw [if_pos (by decide)]
    refine .seq (freeDevice_ends h0 hne.symm hserver nofun .nil nofun) fun r k₃ hfree => ?_
    obtain ⟨-, -, rfl⟩ | ⟨hno, -⟩ := hfree
    · refine .pure (.inl ⟨rfl, ⟨congrArg _ hfds, .inr ⟨hp, dev, ?_⟩⟩, fun h => ?_⟩)
      · rw [put_chunks_ne hne.symm, hserver]
      · rw [hp] at h
        cases h
    · exact absurd (file_neg _) hno
  · rcases hset with ⟨hpass, rfl, s', d', hd, rfl⟩ | ⟨rfl, s', d', hd, hb⟩
    · rw [if_pos (by decide)]
      -- the descriptor is open, so the destructor closes it
      have hopen : (k₁.fds.open' n hn).file d'.fd ≠ none := by
        rw [hd.fd, hdn]
        exact fun h => Option.some_ne_none _ (file_open.symm.trans h)
      refine .seq (freeDevice_ends (k := { k₁.opened n hn s with signals := s' }) h0
        hne.symm hserver nofun .nil nofun) fun r k₃ hfree => ?_
      obtain ⟨hno, -⟩ | ⟨-, -, hfreed⟩ := hfree
      · exact absurd hno hopen
      · refine .pure (.inl ⟨rfl, ⟨?_, .inl ⟨hp, ?_⟩⟩, fun _ => hpass⟩)
        · rw [hfreed.fds, hd.fd, hdn]
          exact (FdTable.close_open _ n hn).trans (congrArg _ hfds)
        · rw [hfreed.parent, List.erase_cons_head]
    · -- every check is passed: the device is returned
      rw [if_neg (by decide)]
      subst hk₁
      refine .pure (.inr ⟨n, hn, s, s', d, d', hp, hcap rfl, h0, hfree, hlen, ?_, hd, hb⟩)
      rw [hslots]
      exact Nat.zero_lt_succ 5

/-! ## Buffers and frames -/

/-- The driver of a device that captures: it opens and passes the first steps, and has
    between 3 and `MAX_DEVICE_FRAMES` buffers, as it answers to `VIDIOC_REQBUFS`. -/
structure Captures (D : Driver) (path : String) : Prop where
  opens : D.opens path = true
  passes : Passes D
  reqbufs : ∀ rb r, D.answers (.reqbufs rb) r = true →
    r = .error .EINTR ∨ ∃ rb', r = .ok rb' ∧ rb'.count = D.buffers.length
  least : 3 ≤ D.buffers.length
  most : D.buffers.length ≤ maxDeviceFrames
  lengths : ∀ b ∈ D.buffers, 0 < b.2
  offsets : (D.buffers.map Prod.fst).Nodup

/-- Frame `f` of a device open as file `file` shows the driver's buffer `b`. -/
def Shows (k : Machine) (file f : Nat) (b : Nat × Nat) : Prop :=
  f ≠ 0 ∧ ∃ c x m, k.chunks f = some c ∧ c.body = .frame x ∧ m ∈ k.maps ∧
  x.mem = m.addr ∧
    m.file = file ∧ (m.offset, m.length) = b ∧ x.length = b.2

/-- The device is really mapped: each buffer of the driver is shown by the frame of its
    number, different ones by different frames. -/
def Mapped (D : Driver) (k : Machine) (dev : Nat) : Prop :=
  ∃ (c : Chunk) (d : AvDevice) (file : Nat), k.chunks dev = some c ∧ c.body = .device d ∧
    k.fds.file d.fd = some file ∧ (∀ (i : Nat) (b : Nat × Nat), D.buffers[i]? = some b →
      ∃ f, d.frames[i]? = some f ∧ Shows k file f b) ∧
    (d.frames.take D.buffers.length).Nodup

/-- A frame that failed to map shows nothing. -/
theorem Buffers.not_mapped {a : Nat} {cs : List Nat} {d : AvDevice} (hD : Captures D path)
    (hslot : 0 < d.frames.length) (hb : Buffers D k dev a cs d k') : ¬ Mapped D k' dev := by
  rintro ⟨c, d₁, file, hc, hd₁, -, hall, -⟩
  obtain ⟨s, d', hd, hcase⟩ := hb
  obtain ⟨b, hb⟩ : ∃ b, D.buffers[0]? = some b :=
    ⟨_, List.getElem?_eq_getElem ((Nat.zero_lt_succ 2).trans_le hD.least)⟩
  obtain ⟨f₁, hf₁, -, c₁, x₁, m, hc₁, hx₁, -, hmem, -⟩ := hall 0 b hb
  rcases hcase with ⟨⟨rb, e, he, ha⟩, -⟩ | ⟨f, x, -, hne, -, hframes, hx, -, rfl⟩
  · rcases hD.reqbufs rb _ ha with h | ⟨rb', h, -⟩
    · exact he (Except.error.inj h)
    · cases h
  · rw [putFrame, put_chunks_self] at hc
    cases hc
    cases hd₁
    rw [hframes, List.getElem?_set_self hslot] at hf₁
    cases hf₁
    rw [putFrame_chunks_self hne] at hc₁
    cases hc₁
    cases hx₁
    rw [hx, frameMapFailed] at hmem
    omega

theorem captures_ends (hs : k.chunks server = some c) (hD : Captures D path) :
    Ends (sem D) (fun _ => False) (fun dev k' => dev ≠ 0 ∧ ¬ Mapped D k' dev)
      (avDeviceNewFromPath server path) k := by
  refine (fromPath_ends D path (fun _ => False) hs (.inr fun rb rb' h => ?_)).mono
    fun dev k' hk => ?_
  · obtain h | ⟨rb₁, h, hcount⟩ := hD.reqbufs rb _ h
    · cases h
    · cases h
      exact hcount ▸ hD.least
  · rcases hk with ⟨-, -, hpass⟩ | ⟨n, hn, s, s', d, d', -, -, h0, -, -, hslot, hd, hb⟩
    · exact absurd hD.passes (hpass hD.opens)
    · exact ⟨h0, hb.not_mapped hD (hd.slots ▸ hslot)⟩

/-! ## Attempts -/

/-- Calls of `av_device_new_from_path` under one server that all returned NULL, each with
    the driver it met and its path. -/
inductive Attempts (server : Nat) : Machine → List (Driver × String) → Machine → Prop
  | nil (k : Machine) : Attempts server k [] k
  | cons {k k₁ k' : Machine} {D : Driver} {path : String} {rest : List (Driver × String)} :
      Exec (sem D) (avDeviceNewFromPath server path) k 0 k₁ → Attempts server k₁ rest k' →
      Attempts server k ((D, path) :: rest) k'

theorem FailedAttempt.of_exec (hs : k.chunks server = some c)
    (he : Exec (sem D) (avDeviceNewFromPath server path) k 0 k') :
    FailedAttempt D path server c k k' := by
  have hends := fromPath_ends D path (fun o => o = .abort) hs (.inl rfl)
  rcases hends.exec he with ⟨-, hfail, -⟩ | ⟨_, _, _, _, _, _, _, _, h0, -⟩
  · exact hfail
  · exact absurd rfl h0

/-- Each attempt whose path did not open has left one chunk. -/
theorem Attempts.children {l : List (Driver × String)} (h : Attempts server k l k')
    (hs : k.chunks server = some c) :
    ∃ left, k'.chunks server = some { c with children := left ++ c.children } ∧
      left.length = (l.filter fun x => !x.1.opens x.2).length ∧
      k'.fds.entries = k.fds.entries := by
  induction h generalizing c with
  | nil k => exact ⟨[], hs, rfl, rfl⟩
  | cons he _ ih =>
    obtain ⟨hfds, hcase⟩ := FailedAttempt.of_exec hs he
    rcases hcase with ⟨hp, hc⟩ | ⟨hp, dev, hc⟩
    · obtain ⟨left, hleft, hlen, hfds'⟩ := ih hc
      refine ⟨left, hleft, ?_, hfds'.trans hfds⟩
      rw [hlen, List.filter_cons_of_neg]
      rw [hp, Bool.not_true]
      exact Bool.false_ne_true
    · obtain ⟨left, hleft, hlen, hfds'⟩ := ih hc
      refine ⟨left ++ [dev], ?_, ?_, hfds'.trans hfds⟩
      · rw [hleft, List.append_assoc]
        rfl
      · rw [List.length_append, hlen, List.filter_cons_of_pos]
        · rfl
        · rw [hp]
          rfl

end Machine

open Machine

/-- A process with a server and its standard streams open. -/
def demoMachine : Machine where
  chunks p := if p = 1 then some ⟨0, [], none, .other⟩ else none
  finite := ⟨2, fun p hp => if_neg (by omega)⟩
  fds := ⟨[(0, 0), (1, 1), (2, 2)], 3, by decide, by decide⟩
  maps := []
  signals := 0

/-- A camera with three buffers. -/
def demoCamera : Driver where
  opens _ := true
  answers
    | .querycap, .ok cap => decide (cap = 0x04000001)
    | .reqbufs _, .ok rb => decide (rb.count = 3)
    | _, .ok _ => true
    | _, .error _ => false
  buffers := [(0, 614400), (614400, 614400), (1228800, 614400)]
  settles
    | .querycap => ⟨.ok 0x04000001, nofun, rfl⟩
    | .sFmt fmt => ⟨.ok fmt, nofun, rfl⟩
    | .sParm parm => ⟨.ok parm, nofun, rfl⟩
    | .reqbufs rb => ⟨.ok { rb with count := 3 }, nofun, rfl⟩
    | .dqbuf buf => ⟨.ok buf, nofun, rfl⟩

theorem demoCamera_captures (path : String) : Captures demoCamera path where
  opens := rfl
  passes := by
    have hcap : ∀ cap, demoCamera.answers .querycap (.ok cap) = true → cap = 0x04000001 :=
      fun _ h => of_decide_eq_true h
    exact ⟨fun _ h => Bool.noConfusion h, fun cap h => hcap cap h ▸ by decide,
      fun cap h => hcap cap h ▸ by decide, fun _ _ h => Bool.noConfusion h⟩
  reqbufs := by
    intro rb r h
    cases r with
    | error e => cases h
    | ok rb' => exact .inr ⟨rb', rfl, of_decide_eq_true h⟩
  least := by decide
  most := by decide
  lengths := by decide
  offsets := by decide

/-- **A device reported as set up is never mapped.**  Whatever the driver's buffers are,
    the call returns, it returns a device, and the device is not mapped. -/
theorem device_unmapped {D : Driver} {path : String} {server : Nat} {c : Chunk} {k : Machine}
    (hs : k.chunks server = some c) (hD : Captures D path) :
    (∃ dev k', Exec (sem D) (avDeviceNewFromPath server path) k dev k') ∧
    ∀ dev k', Exec (sem D) (avDeviceNewFromPath server path) k dev k' →
      dev ≠ 0 ∧ ¬ Mapped D k' dev := by
  have hends := captures_ends hs hD
  obtain ⟨dev, k', he, -⟩ := hends.exists_exec fun _ => id
  exact ⟨⟨dev, k', he⟩, fun _ _ he => hends.exec he⟩

/-- The camera's first frame is not mapped. -/
theorem device_unmapped_demo :
    (∃ dev k', Exec (sem demoCamera) (avDeviceNewFromPath 1 "/dev/video0")
      demoMachine dev k') ∧
    ∀ dev k', Exec (sem demoCamera) (avDeviceNewFromPath 1 "/dev/video0") demoMachine dev k' →
      dev ≠ 0 ∧ ¬ Mapped demoCamera k' dev :=
  device_unmapped rfl (demoCamera_captures _)

/-- A device is returned and not mapped. -/
theorem device_claimed_mapped :
    ¬ ∀ dev k', Exec (sem demoCamera) (avDeviceNewFromPath 1 "/dev/video0")
    demoMachine dev k' → dev ≠ 0 → Mapped demoCamera k' dev := by
  intro hclaim
  have hs : demoMachine.chunks 1 = some ⟨0, [], none, .other⟩ := rfl
  obtain ⟨dev, k', he, h0, hnot⟩ :=
    (captures_ends hs (demoCamera_captures "/dev/video0")).exists_exec fun _ => id
  exact hnot (hclaim dev k' he h0)

/-- A driver without any device, and one whose device is none that captures. -/
def demoAbsent : Driver where
  opens _ := false
  answers
    | _, .error e => decide (e = .EINVAL)
    | _, .ok _ => false
  buffers := []
  settles _ := ⟨.error .EINVAL, nofun, rfl⟩

def demoDeaf : Driver := { demoAbsent with opens := fun _ => true }

/-- An attempt with one of the two. -/
theorem demo_attempt {D : Driver} (path : String) {k : Machine} {server : Nat} {c : Chunk}
    (hD : D = demoAbsent ∨ D = demoDeaf) (hs : k.chunks server = some c) :
    ∃ k', Exec (sem D) (avDeviceNewFromPath server path) k 0 k' ∧
      FailedAttempt D path server c k k' := by
  have hok : ∀ req r, D.answers req (.ok r) = false := by
    rcases hD with rfl | rfl <;> exact fun _ _ => rfl
  obtain ⟨r, k', he, hcase⟩ := (fromPath_ends D path (fun _ => False) hs
    (.inr fun rb rb' h => by rw [hok] at h; cases h)).exists_exec fun _ => id
  rcases hcase with ⟨rfl, hf, -⟩ | ⟨n, hn, s, s', d, d', -, ⟨cap, hcap⟩, -⟩
  · exact ⟨k', he, hf⟩
  · rw [hok] at hcap
    cases hcap

/-- **Failing to open a device leaves the server as it was** exactly when every attempt
    could open its path. -/
theorem failed_attempts {server : Nat} {c : Chunk} {k k' : Machine} {l : List (Driver × String)}
    (hs : k.chunks server = some c) (h : Attempts server k l k') :
    ((k'.chunks server).map Chunk.children = (k.chunks server).map Chunk.children ∧
      k'.fds.entries = k.fds.entries) ↔ ∀ x ∈ l, x.1.opens x.2 = true := by
  obtain ⟨left, hc, hlen, hfds⟩ := h.children hs
  have hall : (∀ x ∈ l, x.1.opens x.2 = true) ↔ left = [] := by
    rw [← List.length_eq_zero_iff, hlen, List.length_eq_zero_iff, List.filter_eq_nil_iff]
    simp only [Bool.not_eq_true', Bool.not_eq_false]
  rw [hall, hc, hs, Option.map_some, Option.map_some, Option.some.injEq]
  constructor
  · exact fun h => List.append_left_eq_self.1 h.1
  · rintro rfl
    exact ⟨rfl, hfds⟩

/-- A path that opens on no camera, then a path that does not open. -/
theorem failed_attempts_demo : ∃ k k', Attempts 1 demoMachine [(demoDeaf, "/dev/null")] k ∧
    k.fds.entries = demoMachine.fds.entries ∧
    Attempts 1 demoMachine [(demoDeaf, "/dev/null"), (demoAbsent, "/anekvideorocks")] k' ∧
    ¬ ((k'.chunks 1).map Chunk.children = (demoMachine.chunks 1).map Chunk.children ∧
      k'.fds.entries = demoMachine.fds.entries) := by
  have hs : demoMachine.chunks 1 = some ⟨0, [], none, .other⟩ := rfl
  obtain ⟨k, he, -, hcase⟩ := demo_attempt "/dev/null" (.inr rfl) hs
  obtain ⟨-, hc⟩ | ⟨h, -⟩ := hcase
  · obtain ⟨k', he', -⟩ := demo_attempt "/anekvideorocks" (.inl rfl) hc
    have hone : Attempts 1 demoMachine [(demoDeaf, "/dev/null")] k := .cons he (.nil k)
    have hboth := Attempts.cons he (.cons he' (.nil k'))
    refine ⟨k, k', hone, ((failed_attempts rfl hone).2 fun x hx => ?_).2, hboth, fun h => ?_⟩
    · rw [List.mem_singleton.1 hx]
      rfl
    · exact Bool.noConfusion
        ((failed_attempts rfl hboth).1 h _ (List.mem_cons_of_mem _ (List.mem_cons_self ..)))
  · cases h

/-- A path that does not open leaves a chunk under the server. -/
theorem failed_open_left :
    ∃ dev k', Exec (sem demoAbsent) (avDeviceNewFromPath 1 "/anekvideorocks")
    demoMachine 0 k' ∧ (demoMachine.chunks 1).map Chunk.children = some [] ∧
    (k'.chunks 1).map Chunk.children = some [dev] := by
  have hs : demoMachine.chunks 1 = some ⟨0, [], none, .other⟩ := rfl
  obtain ⟨k', he, -, hcase⟩ := demo_attempt "/anekvideorocks" (.inl rfl) hs
  obtain ⟨h, -⟩ | ⟨-, dev, hc⟩ := hcase
  · cases h
  · exact ⟨dev, k', he, rfl, by rw [hc]; rfl⟩

end AnekVideo
