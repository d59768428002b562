/-
  AnekVideo.Device.Setup

  What each function of device.c does to the machine, read forwards from a
  machine whose device chunk is spelled out (`Machine.put`).

  The buffers never get mapped: `dev->buf.length` is zero from `av_clear` on,
  nothing but `VIDIOC_QUERYBUF` could change it, and a mapping of length zero
  fails.  So the loop of `av_device_setup_buffers` ends in its first round.
-/
import AnekVideo.Device.World

namespace AnekVideo

open Interact

namespace Machine

variable {D : Driver} {ch : Choice} {stop : Sys → Prop} {k k' : Machine} {α : Type}
  {Q : α → Machine → Prop} {p dev a : Nat} {cs : List Nat} {d : AvDevice}

/-! ## The heap -/

@[simp] theorem setChunk_chunks_self {c : Option Chunk} : (k.setChunk p c).chunks p = c :=
  Function.update_self ..

theorem setChunk_chunks_ne {c : Option Chunk} {q : Nat} (h : q ≠ p) :
    (k.setChunk p c).chunks q = k.chunks q := Function.update_of_ne h ..

@[simp] theorem setChunk_fds {c : Option Chunk} : (k.setChunk p c).fds = k.fds := rfl

@[simp] theorem setChunk_setChunk {c c' : Option Chunk} :
    (k.setChunk p c).setChunk p c' = k.setChunk p c' := by
  simp only [setChunk, Function.update_idem]

theorem setChunk_comm {c c' : Option Chunk} {q : Nat} (h : p ≠ q) :
    (k.setChunk p c).setChunk q c' = (k.setChunk q c').setChunk p c := by
  simp only [setChunk, Function.update_comm h]

theorem setChunk_same {c : Option Chunk} (h : k.chunks p = c) : k.setChunk p c = k := by
  simp only [setChunk, ← h, Function.update_eq_self]

/-- The machine with the device `d` in the chunk `dev`. -/
def put (k : Machine) (dev a : Nat) (cs : List Nat) (d : AvDevice) : Machine :=
  k.setChunk dev (some ⟨a, cs, some .avDeviceDestroy, .device d⟩)

@[simp] theorem put_chunks_self :
    (k.put dev a cs d).chunks dev = some ⟨a, cs, some .avDeviceDestroy, .device d⟩ :=
  setChunk_chunks_self

theorem put_chunks_ne {q : Nat} (h : q ≠ dev) : (k.put dev a cs d).chunks q = k.chunks q :=
  setChunk_chunks_ne h

@[simp] theorem put_fds : (k.put dev a cs d).fds = k.fds := rfl

/-! ## One operation -/

/-- An operation that has one outcome. -/
theorem step_then {o : Sys} {g : o.Resp → C α} {r : o.Resp}
    (he : ∀ ch, exec D ch o k = some (r, k')) (h : Ends (sem D) stop Q (g r) k') :
    Ends (sem D) stop Q (call o >>= g) k := Ends.op_det (.ok 0) he h

theorem step_last {o : Sys} {Q : o.Resp → Machine → Prop} {r : o.Resp}
    (he : ∀ ch, exec D ch o k = some (r, k')) (h : Q r k') : Ends (sem D) stop Q (call o) k :=
  Ends.last_det (.ok 0) he h

theorem log_then {l : LogLevel} {fmt : String} {args : List LogArg} {g : Unit → C α}
    (h : Ends (sem D) stop Q (g ()) k) : Ends (sem D) stop Q (call (.log l fmt args) >>= g) k :=
  step_then (fun _ => rfl) h

/-- An assertion that fails ends the process. -/
theorem assert_then {b : Bool} {expr func : String} {g : Unit → C α}
    (hb : stop .abort ∨ b = true) (h : b = true → Ends (sem D) stop Q (g ()) k) :
    Ends (sem D) stop Q (avAssert b expr func >>= g) k := by
  refine avAssert_ends (fun _ _ _ => ⟨k, .ok 0, rfl⟩) (fun hf => ?_) h
  exact hb.resolve_right fun ht => Bool.false_ne_true (hf.symm.trans ht)

theorem getDevice_then {g : AvDevice → C α} (h : Ends (sem D) stop Q (g d) (k.put dev a cs d)) :
    Ends (sem D) stop Q (call (.getDevice dev) >>= g) (k.put dev a cs d) := by
  refine step_then (fun ch => ?_) h
  simp only [exec, put_chunks_self]

theorem updateDevice_then {upd : AvDevice → AvDevice} {g : Unit → C α}
    (h : Ends (sem D) stop Q (g ()) (k.put dev a cs (upd d))) :
    Ends (sem D) stop Q (updateDevice dev upd >>= g) (k.put dev a cs d) := by
  have hset : ∀ ch, exec D ch (.setDevice dev (upd d)) (k.put dev a cs d) =
      some ((), k.put dev a cs (upd d)) := by
    intro ch
    simp only [exec, put_chunks_self, Option.map_some]
    simp only [put, setChunk_setChunk]
  exact .bind (getDevice_then (step_last hset h))

/-! ## Descriptors -/

/-- The machine after a file was opened as `n` and all but `s` interruptions came. -/
def opened (k : Machine) (n : Nat) (hn : n ∉ k.fds.entries.map Prod.fst) (s : Nat) : Machine :=
  { k with fds := k.fds.open' n hn, signals := s }

theorem open_then {path : String} {g : Except Errno Int → C α}
    (hno : D.opens path = false → ∀ e, Ends (sem D) stop Q (g (.error e)) k)
    (hyes : D.opens path = true → ∀ (n : Nat) hn,
      Ends (sem D) stop Q (g (.ok n)) (k.opened n hn k.signals)) :
    Ends (sem D) stop Q (call (.open path) >>= g) k := by
  refine .op (.inr ?_) ?_
  · cases hp : D.opens path with
    | false => exact ⟨.error .ENOENT, k, .fail .ENOENT, by simp [exec, openPath, hp]⟩
    | true =>
      -- some number is free
      obtain ⟨n, hn⟩ := Infinite.exists_notMem_finset (k.fds.entries.map Prod.fst).toFinset
      rw [List.mem_toFinset] at hn
      exact ⟨.ok n, k.opened n hn k.signals,
        .ok n, by simp only [exec, openPath, hp, dif_pos hn]; rfl⟩
  · rintro r k' ⟨ch, hs⟩
    change openPath D ch k path = _ at hs
    cases ch with
    | ok n =>
      simp only [openPath] at hs
      split at hs
      · rename_i hn
        split at hs
        · rename_i hp
          cases hs
          exact hyes hp n hn
        · cases hs
      · cases hs
    | fail e =>
      simp only [openPath] at hs
      split at hs
      · cases hs
      · rename_i hp
        cases hs
        exact hno (Bool.eq_false_iff.2 hp) e
    | answer f => cases hs

theorem file_open {F : FdTable} {n : Nat} {hn} : (F.open' n hn).file (n : Int) = some F.next := by
  simp [FdTable.file, FdTable.open']

/-- -1 is never open. -/
theorem file_neg (F : FdTable) : F.file (-1) = none := by
  have hfind : F.entries.find? (fun x => decide ((x.1 : Int) = -1)) = none := by
    refine List.find?_eq_none.2 fun x _ h => ?_
    have := of_decide_eq_true h
    omega
  rw [FdTable.file, hfind]
  rfl

theorem ioctl_cases {fd : Int} {req : Ioctl} {r : Except Errno req.Out}
    (hfd : k.fds.file fd ≠ none) (he : exec D ch (.ioctl fd req) k = some (r, k')) :
    (r = .error .EINTR ∧ k.signals ≠ 0 ∧ k' = { k with signals := k.signals - 1 }) ∨
      (r ≠ .error .EINTR ∧ D.answers req r = true ∧ k' = k) := by
  obtain ⟨file, hfile⟩ := Option.ne_none_iff_exists'.1 hfd
  change ioctl D ch k fd req = _ at he
  cases ch with
  | ok n => simp only [ioctl, hfile] at he; cases he
  | fail e => simp only [ioctl, hfile] at he; cases he
  | answer f =>
    simp only [ioctl, hfile] at he
    split at he
    · rename_i ha
      split at he
      · split at he
        · cases he
        · rename_i hs
          cases he
          exact .inl ⟨rfl, hs, rfl⟩
      · rename_i hne
        cases he
        exact .inr ⟨hne, ha, rfl⟩
    · cases he

/-- `av_ioctl` returns an answer of the driver other than `EINTR`. -/
theorem ioctl_then {fd : Int} {req : Ioctl} {g : Except Errno req.Out → C α}
    (hfd : k.fds.file fd ≠ none)
    (h : ∀ r s, r ≠ .error .EINTR → D.answers req r = true →
      Ends (sem D) stop Q (g r) { k with signals := s }) :
    Ends (sem D) stop Q (avIoctl fd req >>= g) k := by
  refine .bind (eintrLoop_signals (p := fun s => { k with signals := s }) Machine.signals
    (fun _ => rfl) (fun s => ?_) k.signals)
  obtain ⟨r, hr, ha⟩ := D.settles req
  obtain ⟨file, hfile⟩ := Option.ne_none_iff_exists'.1 hfd
  have hlive : sem D (.ioctl fd req) { k with signals := s } r { k with signals := s } := by
    refine ⟨.answer fun q => if hq : q = req then hq ▸ r else .error .EINVAL, ?_⟩
    simp only [exec, ioctl, hfile, dif_pos, ha, if_true]
  refine Ends.last (E := sys) (o := Sys.ioctl fd req) (.inr ⟨r, _, hlive⟩) fun r' k' hs => ?_
  obtain ⟨ch, he⟩ := hs
  have hfd' : ({ k with signals := s } : Machine).fds.file fd ≠ none := hfd
  rcases ioctl_cases hfd' he with ⟨rfl, hs, rfl⟩ | ⟨hne, ha', rfl⟩
  · exact .inl ⟨rfl, hs, rfl⟩
  · exact .inr ⟨hne, h r' s hne ha'⟩

/-! ## Frames -/

/-- The chunk of a frame of the device `dev`. -/
def frameChunk (dev : Nat) (x : AvFrame) : Chunk := ⟨dev, [], some .avFrameDestroy, .frame x⟩

/-- The machine with a device and a frame of it. -/
def putFrame (k : Machine) (dev a : Nat) (cs : List Nat) (d : AvDevice) (f : Nat) (x : AvFrame) :
    Machine := (k.setChunk f (some (frameChunk dev x))).put dev a cs d

theorem newChunk_eq {ctx : Nat} {c : Chunk} (hc : k.chunks ctx = some c) (h0 : p ≠ 0)
    (hp : k.chunks p = none) : newChunk (.ok p) k ctx =
      some (p, (k.setChunk p (some ⟨ctx, [], none, .other⟩)).setChunk ctx
        (some { c with children := p :: c.children })) := by
  have hne : ctx ≠ p := by
    rintro rfl
    rw [hc] at hp
    cases hp
  have hfree : ¬ (p = 0 ∨ k.chunks p ≠ none) := not_or.2 ⟨h0, not_not.2 hp⟩
  simp only [newChunk, hc, if_neg hfree]
  rw [setChunk_comm hne]

/-- All that `newChunk` does. -/
theorem newChunk_cases {ctx : Nat} (h : newChunk ch k ctx = some (p, k')) :
    ∃ c, k.chunks ctx = some c ∧ p ≠ 0 ∧ k.chunks p = none ∧
      k' = (k.setChunk p (some ⟨ctx, [], none, .other⟩)).setChunk ctx
        (some { c with children := p :: c.children }) := by
  cases ch with
  | fail e => cases h
  | answer f => cases h
  | ok q =>
    cases hc : k.chunks ctx with
    | none =>
      simp only [newChunk, hc] at h
      cases h
    | some c =>
      have hfree : q ≠ 0 ∧ k.chunks q = none := by
        simp only [newChunk, hc] at h
        split at h
        · cases h
        · rename_i hfree
          rwa [not_or, not_ne_iff] at hfree
      rw [newChunk_eq hc hfree.1 hfree.2] at h
      cases h
      exact ⟨c, rfl, hfree.1, hfree.2, rfl⟩

/-- A new chunk, at an address that was free. -/
theorem chunkNew_then {ctx : Nat} {c : Chunk} {g : Nat → C α} (hc : k.chunks ctx = some c)
    (h : ∀ p, p ≠ 0 → p ≠ ctx → k.chunks p = none → Ends (sem D) stop Q (g p)
      ((k.setChunk p (some ⟨ctx, [], none, .other⟩)).setChunk ctx
        (some { c with children := p :: c.children }))) :
    Ends (sem D) stop Q (call (.chunkNew ctx) >>= g) k := by
  refine .op (.inr ?_) ?_
  · -- there is always a free address
    obtain ⟨n, hn⟩ := k.finite
    have hp : k.chunks (n + 1) = none := hn _ (Nat.le_succ n)
    exact ⟨_, _, .ok (n + 1), newChunk_eq hc (Nat.succ_ne_zero n) hp⟩
  · rintro p k' ⟨ch, hs⟩
    obtain ⟨c', hc', h0, hfree, rfl⟩ :=
      newChunk_cases (show newChunk ch k ctx = some (p, k') from hs)
    obtain rfl : c' = c := Option.some.inj (hc'.symm.trans hc)
    have hne : p ≠ ctx := by
      intro heq
      rw [heq, hc] at hfree
      cases hfree
    exact h p h0 hne hfree

variable {f : Nat} {x : AvFrame}

theorem putFrame_chunks_self (hf : f ≠ dev) :
    (k.putFrame dev a cs d f x).chunks f = some (frameChunk dev x) := by
  rw [putFrame, put_chunks_ne hf, setChunk_chunks_self]

theorem putFrame_set {y : AvFrame} (hf : f ≠ dev) :
    (k.putFrame dev a cs d f x).setChunk f (some (frameChunk dev y)) =
      k.putFrame dev a cs d f y := by
  simp only [putFrame, put]
  rw [setChunk_comm (Ne.symm hf), setChunk_setChunk]

theorem frameNew_then {g : Nat → C α} (hdev : dev ≠ 0)
    (h : ∀ f, f ≠ 0 → f ≠ dev → k.chunks f = none →
      Ends (sem D) stop Q (g f) (k.putFrame dev a (f :: cs) d f {})) :
    Ends (sem D) stop Q (avFrameNewForDevice dev >>= g) (k.put dev a cs d) := by
  refine .bind (assert_then (.inr (decide_eq_true hdev)) fun _ =>
    chunkNew_then put_chunks_self fun f h0 hne hfree => ?_)
  have hf : k.chunks f = none := by rwa [put_chunks_ne hne] at hfree
  have hstate : ((k.put dev a cs d).setChunk f (some ⟨dev, [], none, .other⟩)).setChunk dev
      (some ⟨a, f :: cs, some .avDeviceDestroy, .device d⟩) =
      (k.setChunk f (some ⟨dev, [], none, .other⟩)).put dev a (f :: cs) d := by
    simp only [put]
    rw [setChunk_comm hne.symm, setChunk_setChunk]
  rw [hstate]
  have hget : ∀ c : Chunk, ((k.setChunk f (some c)).put dev a (f :: cs) d).chunks f = some c :=
    fun c => by rw [put_chunks_ne hne, setChunk_chunks_self]
  have hset : ∀ c c' : Chunk, ((k.setChunk f (some c)).put dev a (f :: cs) d).setChunk f
      (some c') = (k.setChunk f (some c')).put dev a (f :: cs) d := by
    intro c c'
    simp only [put]
    rw [setChunk_comm (Ne.symm hne), setChunk_setChunk]
  have hdestr : ∀ ch, exec D ch (.chunkSetDestructor f (some .avFrameDestroy))
      ((k.setChunk f (some ⟨dev, [], none, .other⟩)).put dev a (f :: cs) d) =
      some ((), (k.setChunk f (some ⟨dev, [], some .avFrameDestroy, .other⟩)).put dev a
        (f :: cs) d) := by
    intro ch
    simp only [exec, hget, Option.map_some, hset]
  have hframe : ∀ ch, exec D ch (.setFrame f {})
      ((k.setChunk f (some ⟨dev, [], some .avFrameDestroy, .other⟩)).put dev a (f :: cs) d) =
      some ((), k.putFrame dev a (f :: cs) d f {}) := by
    intro ch
    simp only [exec, hget, Option.map_some, hset]
    rfl
  exact step_then hdestr (step_then hframe (.pure (h f h0 hne hf)))

/-- An access to a frame of the device. -/
theorem getFrame_then {g : AvFrame → C α} (hf : f ≠ dev)
    (h : Ends (sem D) stop Q (g x) (k.putFrame dev a cs d f x)) :
    Ends (sem D) stop Q (call (.getFrame f) >>= g) (k.putFrame dev a cs d f x) := by
  refine step_then (fun ch => ?_) h
  simp only [exec, putFrame_chunks_self hf, frameChunk]

theorem exec_setFrame {y : AvFrame} (hf : f ≠ dev) :
    exec D ch (.setFrame f y) (k.putFrame dev a cs d f x) =
      some ((), k.putFrame dev a cs d f y) := by
  simp only [exec, putFrame_chunks_self hf, Option.map_some]
  exact congrArg (fun k => some ((), k)) (putFrame_set hf)

theorem setFrameMem_then {mem : Int} {g : Unit → C α} (hf : f ≠ dev)
    (h : Ends (sem D) stop Q (g ()) (k.putFrame dev a cs d f { x with mem := mem })) :
    Ends (sem D) stop Q (setFrameMem f mem >>= g) (k.putFrame dev a cs d f x) :=
  .bind (getFrame_then hf (step_last (fun _ => exec_setFrame hf) h))

theorem copyMeta_then {src : V4l2Buffer} {g : Int → C α} (hf : f ≠ dev)
    (h : Ends (sem D) stop Q (g 0) (k.putFrame dev a cs d f { x with
      field := src.field, length := src.length, sequence := src.sequence,
      timestamp := src.timestamp, timecode := src.timecode })) :
    Ends (sem D) stop Q (avFrameCopyMetaFromV4l2Buffer f src >>= g) (k.putFrame dev a cs d f x) :=
  .bind (getFrame_then hf (step_then (fun _ => exec_setFrame hf) (.pure h)))

/-! ## Setting a device up -/

/-- What no part of the setup changes in a device once it is open. -/
structure SameDevice (d d' : AvDevice) : Prop where
  fd : d'.fd = d.fd
  unqueried : d'.buf.length = d.buf.length
  slots : d'.frames.length = d.frames.length

theorem SameDevice.trans {d' d'' : AvDevice} (h : SameDevice d d') (h' : SameDevice d' d'') :
    SameDevice d d'' :=
  ⟨h'.fd.trans h.fd, h'.unqueried.trans h.unqueried, h'.slots.trans h.slots⟩

/-- The driver refuses `VIDIOC_REQBUFS`. -/
def RefusesBuffers (D : Driver) : Prop :=
  ∃ rb e, e ≠ .EINTR ∧ D.answers (.reqbufs rb) (.error e) = true

/-- What `av_device_setup_buffers` leaves: the device without a frame, or with one frame
    that is not mapped. -/
def Buffers (D : Driver) (k : Machine) (dev a : Nat) (cs : List Nat) (d : AvDevice) (k' : Machine) :
    Prop :=
  ∃ s d', SameDevice d d' ∧
    ((RefusesBuffers D ∧ d'.frames = d.frames ∧ k' =
      ({ k with signals := s } : Machine).put dev a cs d') ∨
    ∃ f x, f ≠ 0 ∧ f ≠ dev ∧ k.chunks f = none ∧ d'.frames = d.frames.set 0 f ∧
      x.mem = frameMapFailed ∧ x.length = 0 ∧
      k' = ({ k with signals := s } : Machine).putFrame dev a (f :: cs) d' f x)

/-- The first round of the loop is its last. -/
theorem setupBuffer_ends (hdev : dev ≠ 0) (hlen : d.buf.length = 0)
    (hslot : 0 < d.frames.length) (hcount : 0 < d.rb.count) :
    Ends (sem D) stop (fun r k' => r = .inr (-1) ∧ ∃ f x d', SameDevice d d' ∧ f ≠ 0 ∧
      f ≠ dev ∧
      k.chunks f = none ∧ d'.frames = d.frames.set 0 f ∧ x.mem = frameMapFailed ∧
      x.length = 0 ∧
      k' = k.putFrame dev a (f :: cs) d' f x) (avDeviceSetupBuffer dev 0) (k.put dev a cs d) := by
  refine getDevice_then ?_
  rw [if_pos hcount]
  refine frameNew_then hdev fun f h0 hf hfree => ?_
  have hstore : ∀ ch, exec D ch (.setFrameSlot dev 0 f) (k.putFrame dev a (f :: cs) d f {}) =
      some ((), k.putFrame dev a (f :: cs) { d with frames := d.frames.set 0 f } f {}) := by
    intro ch
    simp only [exec, storeSlot, putFrame, put_chunks_self, if_pos hslot]
    simp only [put, setChunk_setChunk]
  refine step_then hstore ?_
  rw [if_neg h0]
  refine updateDevice_then (getDevice_then (copyMeta_then hf ?_))
  -- a length of 0 is refused, whatever the descriptor is
  have hmap : ∀ ch k, exec D ch (.mmap d.buf.length true (some (d.fd, d.buf.offset))) k =
      some (.error (if k.fds.file d.fd = none then .EBADF else .EINVAL), k) := by
    intro ch k
    change mmapFile D ch k d.buf.length d.fd d.buf.offset = _
    cases hfile : k.fds.file d.fd with
    | none => simp only [mmapFile, hfile, if_true]
    | some file => simp only [mmapFile, hfile, hlen, true_or, if_true, reduceCtorEq, if_false]
  refine step_then (hmap · _) (setFrameMem_then hf (log_then (.pure ?_)))
  refine ⟨rfl, f, _, _, ?_, h0, hf, hfree, ?_, ?_, ?_, rfl⟩
  · exact ⟨rfl, rfl, List.length_set ..⟩
  · rfl
  · rfl
  · exact hlen

theorem setupBuffers_ends (hdev : dev ≠ 0) (hlen : d.buf.length = 0) (hslot : 0 < d.frames.length)
    (hfd : k.fds.file d.fd ≠ none) (hcount : stop .abort ∨
      ∀ rb rb', D.answers (.reqbufs rb) (.ok rb') = true → 2 < rb'.count) :
    Ends (sem D) stop (fun r k' => r = -1 ∧ Buffers D k dev a cs d k') (avDeviceSetupBuffers dev)
      (k.put dev a cs d) := by
  refine assert_then (.inr (decide_eq_true hdev)) fun _ => updateDevice_then (getDevice_then ?_)
  refine ioctl_then hfd fun r s hr ha => ?_
  cases r with
  | error e =>
    refine log_then (.pure ⟨rfl, s, _, ?_, .inl ⟨⟨_, e, ?_, ha⟩, ?_, rfl⟩⟩)
    · exact ⟨rfl, rfl, rfl⟩
    · exact fun he => hr (he ▸ rfl)
    · rfl
  | ok rb =>
    refine updateDevice_then (k := { k with signals := s }) (log_then (assert_then
      (hcount.imp_right fun h => decide_eq_true (h _ _ ha)) fun hrb => .round ?_))
    have hpos : 0 < rb.count := (Nat.zero_lt_succ 1).trans (of_decide_eq_true hrb)
    refine Ends.mono (setupBuffer_ends (k := { k with signals := s }) hdev hlen hslot hpos) ?_
    rintro _ k' ⟨rfl, f, x, d', hd, h0, hf, hfree, hfr, hmem, hx, rfl⟩
    exact .done rfl ⟨rfl, s, d', ⟨hd.fd, hd.unqueried, hd.slots⟩,
      .inr ⟨f, x, h0, hf, hfree, hfr, hmem, hx, rfl⟩⟩

/-- The driver passes the capability and format steps. -/
structure Passes (D : Driver) : Prop where
  querycap : ∀ e, D.answers .querycap (.error e) = true → e = .EINTR
  capture : ∀ cap, D.answers .querycap (.ok cap) = true → cap &&& v4l2CapVideoCapture ≠ 0
  streaming : ∀ cap, D.answers .querycap (.ok cap) = true → cap &&& v4l2CapStreaming ≠ 0
  format : ∀ fmt e, D.answers (.sFmt fmt) (.error e) = true → e = .EINTR

/-- What a setup whose `open` succeeded leaves. -/
def OpenedSetup (D : Driver) (k : Machine) (dev a : Nat) (cs : List Nat) (d : AvDevice) (r : Int)
    (k' : Machine) : Prop :=
  (¬ Passes D ∧ r = -1 ∧ ∃ s d', SameDevice d d' ∧
    k' = ({ k with signals := s } : Machine).put dev a cs d') ∨
  (r = 0 ∧ ∃ s d', SameDevice d d' ∧ Buffers D { k with signals := s } dev a cs d' k')

theorem negotiate_ends (hdev : dev ≠ 0) (hlen : d.buf.length = 0) (hslot : 0 < d.frames.length)
    (hfd : k.fds.file d.fd ≠ none) (hcount : stop .abort ∨
      ∀ rb rb', D.answers (.reqbufs rb) (.ok rb') = true → 2 < rb'.count) :
    Ends (sem D) stop (OpenedSetup D k dev a cs d) (avDeviceNegotiate dev) (k.put dev a cs d) := by
  refine updateDevice_then (getDevice_then (ioctl_then hfd fun r s hr ha => ?_))
  cases r with
  | error e =>
    have he : e ≠ .EINTR := fun he => hr (he ▸ rfl)
    refine log_then (.pure (.inl ⟨fun h => he (h.format _ e ha), rfl, s, _, ?_, rfl⟩))
    exact ⟨rfl, rfl, rfl⟩
  | ok fmt =>
    refine updateDevice_then (k := { k with signals := s }) (ioctl_then hfd fun _ s' _ _ => ?_)
    refine .seq (setupBuffers_ends (D := D) (k := { k with signals := s' }) hdev hlen hslot
      hfd hcount) ?_
    rintro _ k' ⟨rfl, hb⟩
    refine .pure (.inr ⟨rfl, s', _, ?_, hb⟩)
    exact ⟨rfl, rfl, rfl⟩

/-- What `av_device_setup_from_path` leaves: with a path that does not open, the device
    with descriptor -1; else the device with the new descriptor. -/
def Setup (D : Driver) (path : String) (k : Machine) (dev a : Nat) (cs : List Nat) (d : AvDevice)
    (r : Int) (k' : Machine) : Prop :=
  (D.opens path = false ∧ r = -1 ∧ k' = k.put dev a cs { d with fd := -1 }) ∨
  (D.opens path = true ∧ ∃ (n : Nat) (hn : _) (s : Nat) (d' : AvDevice), d'.fd = n ∧
    d'.buf.length = 0 ∧
    d'.frames.length = d.frames.length ∧ OpenedSetup D (k.opened n hn s) dev a cs d' r k' ∧
    (r = 0 → ∃ cap, D.answers .querycap (.ok cap) = true))

theorem setup_ends {path : String} (hdev : dev ≠ 0) (hlen : d.buf.length = 0)
    (hslot : 0 < d.frames.length) (hcount : stop .abort ∨
      ∀ rb rb', D.answers (.reqbufs rb) (.ok rb') = true → 2 < rb'.count) :
    Ends (sem D) stop (Setup D path k dev a cs d) (avDeviceSetupFromPath dev path)
      (k.put dev a cs d) := by
  refine open_then (fun hp e => ?_) fun hp n (hn : n ∉ k.fds.entries.map Prod.fst) => ?_
  · exact updateDevice_then (log_then (.pure (.inl ⟨hp, rfl, rfl⟩)))
  · have hfd : (k.fds.open' n hn).file (n : Int) ≠ none :=
      fun h => Option.some_ne_none _ (file_open.symm.trans h)
    refine updateDevice_then (k := k.opened n hn k.signals) (ioctl_then hfd fun r s hr ha => ?_)
    -- a check fails: the device keeps the new descriptor
    have hfail : ¬ Passes D → OpenedSetup D (k.opened n hn s) dev a cs { d with fd := n } (-1)
        ((k.opened n hn s).put dev a cs { d with fd := n }) :=
      fun h => .inl ⟨h, rfl, s, _, ⟨rfl, rfl, rfl⟩, rfl⟩
    cases r with
    | error e =>
      have he : e ≠ .EINTR := fun he => hr (he ▸ rfl)
      refine log_then (.pure (.inr ⟨hp, n, hn, s, _, ?_, ?_, ?_,
        hfail fun h => he (h.querycap e ha), nofun⟩))
      · rfl
      · exact hlen
      · rfl
    | ok cap =>
      refine updateDevice_then (k := k.opened n hn s) ?_
      have hfail' : ¬ Passes D → Setup D path k dev a cs d (-1)
          ((k.opened n hn s).put dev a cs { d with fd := n, cap := cap }) := fun h =>
        .inr ⟨hp, n, hn, s, { d with fd := n, cap := cap }, rfl, hlen, rfl,
          .inl ⟨h, rfl, s, _, ⟨rfl, rfl, rfl⟩, rfl⟩, nofun⟩
      split
      · rename_i hc
        exact log_then (.pure (hfail' fun h => h.capture cap ha hc))
      · split
        · rename_i hc
          exact log_then (.pure (hfail' fun h => h.streaming cap ha hc))
        · refine Ends.mono (negotiate_ends (k := k.opened n hn s) hdev hlen hslot hfd hcount) ?_
          exact fun r k' hk => .inr ⟨hp, n, hn, s, { d with fd := n, cap := cap }, rfl, hlen, rfl,
            hk, fun _ => ⟨cap, ha⟩⟩

end Machine
end AnekVideo
