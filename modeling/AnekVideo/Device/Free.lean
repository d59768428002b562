/-
  AnekVideo.Device.Free

  `av_device_new`, and `talloc_free` of a device: the destructor closes the
  descriptor in `dev->fd`, and where that fails the chunk stays as it was.
  Otherwise the frames go first, then the device.
-/
import AnekVideo.Device.Setup

namespace AnekVideo

open Interact

namespace Machine

variable {D : Driver} {stop : Sys → Prop} {k k' : Machine} {α : Type}
    {Q : α → Machine → Prop}
  {dev a : Nat} {cs : List Nat} {d : AvDevice}

/-- `av_device_new`: a zeroed device under the server. -/
theorem deviceNew_then {server : Nat} {c : Chunk} {g : Nat → C α}
    (hc : k.chunks server = some c)
    (h : ∀ dev, dev ≠ 0 → dev ≠ server → k.chunks dev = none →
      Ends (sem D) stop Q (g dev)
      ((k.setChunk server (some { c with children := dev :: c.children })).put dev server [] {})) :
    Ends (sem D) stop Q (avDeviceNew server >>= g) k := by
  refine .bind (chunkNew_then hc fun dev h0 hne hfree => ?_)
  have hget : ∀ x y : Chunk, ((k.setChunk dev (some x)).setChunk server (some y)).chunks dev =
      some x :=
    fun x y => by rw [setChunk_chunks_ne hne, setChunk_chunks_self]
  have hset : ∀ x y z : Chunk, ((k.setChunk dev (some x)).setChunk server (some y)).setChunk dev
      (some z) = (k.setChunk dev (some z)).setChunk server (some y) := by
    intro x y z
    rw [setChunk_comm hne.symm, setChunk_setChunk]
  have hdestr : ∀ ch, exec D ch (.chunkSetDestructor dev (some .avDeviceDestroy))
      ((k.setChunk dev (some ⟨server, [], none, .other⟩)).setChunk server
        (some { c with children := dev :: c.children })) =
      some ((), (k.setChunk dev (some ⟨server, [], some .avDeviceDestroy, .other⟩)).setChunk server
        (some { c with children := dev :: c.children })) := by
    intro ch
    simp only [exec, hget, Option.map_some, hset]
  have hdevice : ∀ ch, exec D ch (.setDevice dev {})
      ((k.setChunk dev (some ⟨server, [], some .avDeviceDestroy, .other⟩)).setChunk server
        (some { c with children := dev :: c.children })) =
      some ((), (k.setChunk server (some { c with children := dev :: c.children })).put dev server
        [] {}) := by
    intro ch
    simp only [exec, hget, Option.map_some, hset]
    rw [setChunk_comm hne]
    rfl
  -- first the destructor is set, then the structure is zeroed
  exact step_then hdestr (step_then hdevice (.pure (h dev h0 hne hfree)))

/-! ## Destructors -/

/-- The machine after `fd` was closed. -/
def closed (k : Machine) (fd : Int) : Machine := { k with fds := k.fds.close fd }

theorem exec_setDestructor {ch : Choice} {p b : Nat} {x y : Option Destructor} {l : List Nat}
    {o : Body} (hp : k.chunks p = some ⟨b, l, x, o⟩) :
    exec D ch (.chunkSetDestructor p y) k = some ((), k.setChunk p (some ⟨b, l, y, o⟩)) := by
  simp only [exec, hp, Option.map_some]

/-- The destructor of a device runs under the mark that it does; the outcome of its `close` decides
    whether it comes back. -/
theorem destructDevice_then {g : Bool → C α} {r : Except Errno Unit} (k₁ : Machine)
    (hclose : ∀ ch, exec D ch (.close d.fd)
      (k.setChunk dev (some ⟨a, cs, some .running, .device d⟩)) =
      some (r, k₁.setChunk dev (some ⟨a, cs, some .running, .device d⟩)))
    (hrefuses : ∀ e, r = .error e → Ends (sem D) stop Q (g true) (k₁.put dev a cs d))
    (hcloses : r = .ok () →
      Ends (sem D) stop Q (g false) (k₁.setChunk dev (some ⟨a, cs, none, .device d⟩))) :
    Ends (sem D) stop Q (tallocDestruct dev >>= g) (k.put dev a cs d) := by
  have hget : ∀ ch, exec D ch (.chunkDestructor dev) (k.put dev a cs d) =
      some (some .avDeviceDestroy, k.put dev a cs d) := by
    intro ch
    simp only [exec, put_chunks_self, Option.map_some]
  have hset : ∀ ch x y (k : Machine), exec D ch (.chunkSetDestructor dev y) (k.setChunk dev
      (some ⟨a, cs, x, .device d⟩)) =
        some ((), k.setChunk dev (some ⟨a, cs, y, .device d⟩)) := by
    intro ch x y k
    rw [exec_setDestructor setChunk_chunks_self, setChunk_setChunk]
  have hdev : ∀ ch, exec D ch (.getDevice dev)
      (k.setChunk dev (some ⟨a, cs, some .running, .device d⟩)) =
      some (d, k.setChunk dev (some ⟨a, cs, some .running, .device d⟩)) := by
    intro ch
    simp only [exec, setChunk_chunks_self]
  refine .bind (step_then hget
    (step_then (hset · _ _ k) (.bind (step_then hdev (step_then hclose ?_)))))
  cases r with
  | error e => exact .pure (step_then (hset · _ _ k₁) (.pure (hrefuses e rfl)))
  | ok _ => exact .pure (step_then (hset · _ _ k₁) (.pure (hcloses rfl)))

/-- A device whose descriptor is not open refuses. -/
theorem destructDevice_refuses {g : Bool → C α} (hfd : k.fds.file d.fd = none)
    (h : Ends (sem D) stop Q (g true) (k.put dev a cs d)) :
    Ends (sem D) stop Q (tallocDestruct dev >>= g) (k.put dev a cs d) := by
  refine destructDevice_then (r := .error .EBADF) k (fun ch => ?_) (fun _ _ => h)
    (fun hr => by cases hr)
  simp only [exec, closeFd, setChunk_fds, hfd]

/-- A device whose descriptor is open closes it. -/
theorem destructDevice_closes {g : Bool → C α} (hfd : k.fds.file d.fd ≠ none)
    (h : Ends (sem D) stop Q (g false)
      ((k.closed d.fd).setChunk dev (some ⟨a, cs, none, .device d⟩))) :
    Ends (sem D) stop Q (tallocDestruct dev >>= g) (k.put dev a cs d) := by
  obtain ⟨file, hfile⟩ := Option.ne_none_iff_exists'.1 hfd
  refine destructDevice_then (r := .ok ()) (k.closed d.fd) (fun ch => ?_) (fun e he => by cases he)
    fun _ => h
  simp only [exec, closeFd, setChunk_fds, hfile]
  rfl

/-- A frame lets itself be freed. -/
theorem destructFrame_then {g : Bool → C α} {f : Nat} {b : Body}
    (hf : k.chunks f = some ⟨a, cs, some .avFrameDestroy, b⟩)
    (h : Ends (sem D) stop Q (g false) (k.setChunk f (some ⟨a, cs, none, b⟩))) :
    Ends (sem D) stop Q (tallocDestruct f >>= g) k := by
  have hget : ∀ ch, exec D ch (.chunkDestructor f) k = some (some .avFrameDestroy, k) := by
    intro ch
    simp only [exec, hf, Option.map_some]
  have hset : ∀ ch y z, exec D ch (.chunkSetDestructor f z)
      (k.setChunk f (some ⟨a, cs, y, b⟩)) =
      some ((), k.setChunk f (some ⟨a, cs, z, b⟩)) := by
    intro ch y z
    rw [exec_setDestructor setChunk_chunks_self, setChunk_setChunk]
  refine .bind (step_then hget (step_then (fun ch => exec_setDestructor hf) (.bind ?_)))
  exact log_then (.pure (step_then (hset · _ _) (.pure h)))

/-! ## The frames of a device -/

/-- The first frame `f` of such a device: it is taken out of the list and freed, and the loop goes
    on with the others. -/
theorem freeFrame_then {f : Nat} {l : List Nat} {b : Body} {x : AvFrame}
    {Q : Int → Machine → Prop} (hdev : k.chunks dev = some ⟨a, f :: l, none, b⟩)
    (h0 : f ≠ 0) (hne : f ≠ dev) (hx : k.chunks f = some (frameChunk dev x))
    (h : Ends (sem D) stop Q (Prog.iter tallocFreeRound (.children dev, []))
      ((k.setChunk dev (some ⟨a, l, none, b⟩)).setChunk f none)) :
    Ends (sem D) stop Q (Prog.iter tallocFreeRound (.children dev, [])) k := by
  have hchild : ∀ ch, exec D ch (.chunkChild dev) k = some (f, k) := by
    intro ch
    simp only [exec, hdev, Option.map_some, List.headD_cons]
  have hdetach : ∀ ch, exec D ch (.chunkDetach f) (k.setChunk f (some ⟨dev, [], none, .frame x⟩)) =
      some ((), (k.setChunk f (some ⟨dev, [], none, .frame x⟩)).setChunk dev
        (some ⟨a, l, none, b⟩)) := by
    intro ch
    simp only [exec, detach, setChunk_chunks_self, Option.map_some,
      setChunk_chunks_ne hne.symm, hdev, List.erase_cons_head]
  have hget : ((k.setChunk f (some ⟨dev, [], none, .frame x⟩)).setChunk dev
      (some ⟨a, l, none, b⟩)).chunks f = some ⟨dev, [], none, .frame x⟩ := by
    rw [setChunk_chunks_ne hne, setChunk_chunks_self]
  have hnone : ∀ ch, exec D ch (.chunkChild f)
      ((k.setChunk f (some ⟨dev, [], none, .frame x⟩)).setChunk dev
      (some ⟨a, l, none, b⟩)) =
        some (0, (k.setChunk f (some ⟨dev, [], none, .frame x⟩)).setChunk dev
      (some ⟨a, l, none, b⟩)) := by
    intro ch
    simp only [exec, hget, Option.map_some, List.headD_nil]
  have hrelease : ∀ ch, exec D ch (.chunkRelease f)
      ((k.setChunk f (some ⟨dev, [], none, .frame x⟩)).setChunk
      dev (some ⟨a, l, none, b⟩)) =
        some ((), (k.setChunk dev (some ⟨a, l, none, b⟩)).setChunk f none) := by
    intro ch
    simp only [exec, hget, Option.map_some]
    rw [setChunk_comm hne, setChunk_setChunk]
  refine .round (step_then hchild ?_)
  rw [if_neg h0]
  refine .pure (.round ?_)
  simp only [tallocFreeRound]
  rw [if_neg h0]
  -- its destructor, its place in the list, its own children, and the chunk
  refine destructFrame_then hx (step_then hdetach (.pure (.round (step_then hnone ?_))))
  exact step_then hrelease (.pure (.round (.pure h)))

/-- The frames `l` of a device that has lost its destructor are freed, then the device. -/
theorem freeChildren_ends {l : List Nat} {b : Body}
    (hdev : k.chunks dev = some ⟨a, l, none, b⟩)
    (hframes : ∀ f ∈ l, f ≠ 0 ∧ ∃ x, k.chunks f = some (frameChunk dev x))
    (hl : l.Nodup) :
    Ends (sem D) stop (fun r k' => r = 0 ∧ k'.fds = k.fds ∧ k'.chunks dev = none ∧
      (∀ f ∈ l, k'.chunks f = none) ∧ ∀ p, p ≠ dev → p ∉ l →
        k'.chunks p = k.chunks p)
      (Prog.iter tallocFreeRound (.children dev, [])) k := by
  induction l generalizing k with
  | nil =>
    have hchild : ∀ ch, exec D ch (.chunkChild dev) k = some (0, k) := by
      intro ch
      simp only [exec, hdev, Option.map_some, List.headD_nil]
    have hrelease : ∀ ch, exec D ch (.chunkRelease dev) k = some ((), k.setChunk dev none) := by
      intro ch
      simp only [exec, hdev, Option.map_some]
    refine .round (step_then hchild (step_then hrelease (.pure (.round (.pure (.done rfl ?_))))))
    refine ⟨rfl, rfl, setChunk_chunks_self, fun f hf => ?_, fun p hp _ => setChunk_chunks_ne hp⟩
    exact absurd hf List.not_mem_nil
  | cons f l ih =>
    obtain ⟨hfl, hl⟩ := List.nodup_cons.1 hl
    obtain ⟨h0, x, hx⟩ := hframes f (List.mem_cons_self ..)
    -- a frame is not the device
    have hnot : ∀ q y, k.chunks q = some (frameChunk dev y) → q ≠ dev := by
      rintro q y hy rfl
      rw [hdev] at hy
      cases hy
    have hne := hnot f x hx
    refine freeFrame_then hdev h0 hne hx ?_
    have hother : ∀ p, p ≠ dev → p ≠ f →
        ((k.setChunk dev (some ⟨a, l, none, b⟩)).setChunk f none).chunks p = k.chunks p :=
      fun p hp hpf => (setChunk_chunks_ne hpf).trans (setChunk_chunks_ne hp)
    refine (ih (k := (k.setChunk dev (some ⟨a, l, none, b⟩)).setChunk f none) ?_
      (fun q hq => ?_) hl).mono ?_
    · rw [setChunk_chunks_ne hne.symm, setChunk_chunks_self]
    · obtain ⟨hq0, y, hy⟩ := hframes q (List.mem_cons_of_mem _ hq)
      exact ⟨hq0, y, (hother q (hnot q y hy) fun h => hfl (h ▸ hq)).trans hy⟩
    · rintro r k' ⟨rfl, hfds, hgone, hall, hrest⟩
      refine ⟨rfl, hfds, hgone, fun q hq => ?_, fun p hp hpl => ?_⟩
      · rcases List.mem_cons.1 hq with rfl | hq
        · exact (hrest q hne hfl).trans setChunk_chunks_self
        · exact hall q hq
      · rw [List.mem_cons, not_or] at hpl
        exact (hrest p hp hpl.2).trans (hother p hp hpl.1)

/-! ## Freeing a device -/

/-- The device is gone with its frames, its descriptor and its place under the parent. -/
structure Freed (k : Machine) (dev a : Nat) (pc : Chunk) (cs : List Nat) (fd : Int) (k' : Machine) :
    Prop where
  fds : k'.fds = k.fds.close fd
  device : k'.chunks dev = none
  parent : k'.chunks a = some { pc with children := pc.children.erase dev }
  frames : ∀ f ∈ cs, k'.chunks f = none
  others : ∀ p, p ≠ dev → p ≠ a → p ∉ cs → k'.chunks p = k.chunks p

/-- `talloc_free` of a device: refused with nothing changed where the descriptor in
    `dev->fd` is not open, and otherwise complete. -/
theorem freeDevice_ends {pc : Chunk} (h0 : dev ≠ 0) (ha : a ≠ dev)
    (hpc : k.chunks a = some pc)
    (hframes : ∀ f ∈ cs, f ≠ 0 ∧ ∃ x, (k.put dev a cs d).chunks f = some (frameChunk dev x))
    (hcs : cs.Nodup) (hacs : a ∉ cs) :
    Ends (sem D) stop (fun r k' => (k.fds.file d.fd = none ∧ r = -1 ∧ k' = k.put dev a cs d) ∨
      (k.fds.file d.fd ≠ none ∧ r = 0 ∧ Freed (k.put dev a cs d) dev a pc cs d.fd k'))
      (tallocFree dev) (k.put dev a cs d) := by
  refine .round ?_
  simp only [tallocFreeRound]
  rw [if_neg h0]
  by_cases hfd : k.fds.file d.fd = none
  · -- the destructor refuses, and nothing is freed
    exact destructDevice_refuses hfd (.pure (.round (.pure (.done rfl (.inl ⟨hfd, rfl, rfl⟩)))))
  · have hdetach : ∀ ch, exec D ch (.chunkDetach dev) ((k.closed d.fd).setChunk dev
        (some ⟨a, cs, none, .device d⟩)) = some ((), ((k.closed d.fd).setChunk dev
        (some ⟨a, cs, none, .device d⟩)).setChunk a
          (some { pc with children := pc.children.erase dev })) := by
      intro ch
      have hpc' : (k.closed d.fd).chunks a = some pc := hpc
      simp only [exec, detach, setChunk_chunks_self, Option.map_some, setChunk_chunks_ne ha, hpc']
    refine destructDevice_closes hfd (step_then hdetach (.pure ?_))
    have hdev : (((k.closed d.fd).setChunk dev (some ⟨a, cs, none, .device d⟩)).setChunk a
        (some { pc with children := pc.children.erase dev })).chunks dev =
          some ⟨a, cs, none, .device d⟩ := by
      rw [setChunk_chunks_ne ha.symm, setChunk_chunks_self]
    have hother : ∀ p, p ≠ dev → p ≠ a → (((k.closed d.fd).setChunk dev
        (some ⟨a, cs, none, .device d⟩)).setChunk a
          (some { pc with children := pc.children.erase dev })).chunks p =
        (k.put dev a cs d).chunks p := by
      intro p hp hpa
      rw [setChunk_chunks_ne hpa, setChunk_chunks_ne hp, put_chunks_ne hp]
      rfl
    -- a frame is not a device
    have hfne : ∀ f ∈ cs, f ≠ dev := by
      rintro f hf rfl
      obtain ⟨-, x, hx⟩ := hframes f hf
      rw [put_chunks_self] at hx
      cases hx
    refine (freeChildren_ends hdev (fun f hf => ?_) hcs).mono ?_
    · obtain ⟨hf0, x, hx⟩ := hframes f hf
      exact ⟨hf0, x, (hother f (hfne f hf) fun h => hacs (h ▸ hf)).trans hx⟩
    · rintro r k' ⟨rfl, hfds, hgone, hall, hrest⟩
      refine .inr ⟨hfd, rfl, hfds, hgone, ?_, hall, fun p hp hpa hpc => ?_⟩
      · exact (hrest a ha hacs).trans setChunk_chunks_self
      · exact (hrest p hp hpc).trans (hother p hp hpa)

end Machine
end AnekVideo
