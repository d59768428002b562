/-
  AnekVideo.Device.Buffers

  `av_device_setup_buffers` against every answer to `VIDIOC_REQBUFS` and every
  pattern of outcomes of `talloc` and `mmap`.

  The loop runs up to the count the driver wrote back, over a table of
  `MAX_DEVICE_FRAMES` slots, and the failure test of `av_frame_new` asks whether
  a pointer is negative.  A store past the table and an access through NULL
  change nothing here; the state records them, so that the call goes on.
-/
import AnekVideo.Device.Code

namespace AnekVideo
namespace Buffers

open Interact

/-! ## One call and its surroundings -/

/-- What the outside does during one call: the driver's answer to `VIDIOC_REQBUFS`, where
    `talloc` puts the `i`-th frame (0 if it fails), and what the `i`-th `mmap` comes to if the
    mapping is not empty. -/
structure Trial where
  reply : Except Errno V4l2Requestbuffers
  reply_ne : reply ≠ .error .EINTR
  alloc : Nat → Nat
  mmap : Nat → Except Errno Nat

/-- An access outside of the program's own data. -/
inductive Access
  /-- A store to `frames[i]`, which is not in the table. -/
  | slot (i : Nat)
  /-- An access through a null frame pointer. -/
  | null
  deriving DecidableEq, Repr

/-- The device, its frames, how many of them were asked for and mapped, the interruptions still
    to come, and the accesses outside, the latest first. -/
structure State where
  device : AvDevice
  frame : Nat → AvFrame
  allocs : Nat
  maps : Nat
  signals : Nat
  bad : List Access

namespace State

/-- An access through the frame pointer `p`. -/
def touch (k : State) (p : Nat) : State :=
  if p = 0 then { k with bad := .null :: k.bad } else k

def setFrame (k : State) (p : Nat) (f : AvFrame) : State :=
  { k.touch p with frame := Function.update k.frame p f }

/-- `dev->frames[i] = f`. -/
def storeSlot (k : State) (i f : Nat) : State :=
  if i < maxDeviceFrames then
    { k with device := { k.device with frames := k.device.frames.set i f } }
  else { k with bad := .slot i :: k.bad }

end State

/-- The `i`-th `mmap`, of `len` bytes: an empty mapping is refused. -/
def Trial.mapped (T : Trial) (len i : Nat) : Except Errno Nat :=
  if len = 0 then .error .EINVAL else T.mmap i

/-- One operation.  The choice is whether a signal interrupts it. -/
def exec (T : Trial) (intr : Bool) : (o : Sys) → State → Option (o.Resp × State)
  | .log _ _ _, k => some ((), k)
  | .getDevice _, k => some (k.device, k)
  | .setDevice _ d, k => some ((), { k with device := d })
  | .ioctl _ (.reqbufs _), k =>
    if intr = true ∧ 0 < k.signals then some (.error .EINTR, { k with signals := k.signals - 1 })
    else some (T.reply, k)
  | .chunkNew _, k => some (T.alloc k.allocs, { k with allocs := k.allocs + 1 })
  | .chunkSetDestructor p _, k => some ((), k.touch p)
  | .getFrame p, k => some (k.frame p, k.touch p)
  | .setFrame p f, k => some ((), k.setFrame p f)
  | .setFrameSlot _ i f, k => some ((), k.storeSlot i f)
  | .mmap len _ _, k => some (T.mapped len k.maps, { k with maps := k.maps + 1 })
  | _, _ => none

def sem (T : Trial) : OpSem sys State := fun o k r k' => ∃ intr, exec T intr o k = some (r, k')

/-- A device before the call. -/
def start (d : AvDevice) (frame : Nat → AvFrame) (signals : Nat) : State where
  device := d
  frame := frame
  allocs := 0
  maps := 0
  signals := signals
  bad := []

/-! ## What the call should do -/

variable {T : Trial} {k k' : State} {rb : V4l2Requestbuffers} {dev i len : Nat}

/-- No access left the table or went through NULL, and if a frame could not be allocated the call
    returned -1. -/
def Inside (T : Trial) (r : Int) (k : State) : Prop :=
  k.bad = [] ∧ ((∃ i, i < k.allocs ∧ T.alloc i = 0) → r = -1)

/-- The `i`-th frame is allocated, and its `len` bytes are mapped. -/
def Passes (T : Trial) (len i : Nat) : Prop := T.alloc i ≠ 0 ∧ (T.mapped len i).isOk = true

/-- Every frame the loop gets to has a slot in the table and can be allocated. -/
def Fits (T : Trial) (len count : Nat) : Prop :=
  ∀ i, i < count → (∀ j, j < i → Passes T len j) → i < maxDeviceFrames ∧ T.alloc i ≠ 0

/-- The assertions of the function fail. -/
def Aborts (T : Trial) (dev : Nat) (o : Sys) : Prop :=
  o = .abort ∧ (dev = 0 ∨ ∃ rb, T.reply = .ok rb ∧ rb.count ≤ 2)

/-! ## One operation -/

variable {stop : Sys → Prop} {α : Type} {Q : α → State → Prop}

/-- An operation that has one outcome. -/
theorem call_ends {o : Sys} {f : o.Resp → C α} {r : o.Resp}
    (he : ∀ intr, exec T intr o k = some (r, k')) (h : Ends (sem T) stop Q (f r) k') :
    Ends (sem T) stop Q (call o >>= f) k := Ends.op_det true he h

theorem call_ends_last {o : Sys} {Q : o.Resp → State → Prop} {r : o.Resp}
    (he : ∀ intr, exec T intr o k = some (r, k')) (h : Q r k') :
    Ends (sem T) stop Q (call o) k := Ends.last_det true he h

/-- The accesses that touch a frame do nothing else to what the loop goes by. -/
theorem touch_of_ne {p : Nat} (hp : p ≠ 0) : k.touch p = k := if_neg hp

theorem bad_touch_zero : (k.touch 0).bad ≠ [] := by
  rw [State.touch, if_pos rfl]
  apply List.cons_ne_nil

/-- What was recorded stays. -/
theorem bad_storeSlot_ne {f : Nat} (h : k.bad ≠ []) : (k.storeSlot i f).bad ≠ [] := by
  unfold State.storeSlot
  split
  · exact h
  · apply List.cons_ne_nil

theorem updateDevice_ends {upd : AvDevice → AvDevice} {g : Unit → C α}
    (h : Ends (sem T) stop Q (g ()) { k with device := upd k.device }) :
    Ends (sem T) stop Q (updateDevice dev upd >>= g) k := by
  have hset : ∀ intr, exec T intr (.setDevice dev (upd k.device)) k =
      some ((), { k with device := upd k.device }) := fun _ => rfl
  exact .bind (call_ends (fun _ => rfl) (call_ends_last hset h))

theorem exec_getFrame {f : Nat} (hf : f ≠ 0) (intr : Bool) :
    exec T intr (.getFrame f) k = some (k.frame f, k) := by
  show some (k.frame f, k.touch f) = _
  rw [touch_of_ne hf]

/-- An assertion that fails ends the process. -/
theorem assert_ends {b : Bool} {expr func : String} {g : Unit → C α}
    (hb : b = false → stop .abort) (h : b = true → Ends (sem T) stop Q (g ()) k) :
    Ends (sem T) stop Q (avAssert b expr func >>= g) k :=
  avAssert_ends (fun _ _ _ => ⟨k, true, rfl⟩) hb h

/-- An assignment to fields of a frame that is there. -/
theorem setFrameMem_ends {f : Nat} {mem : Int} {g : Unit → C α} (hf : f ≠ 0)
    (h : ∀ x, Ends (sem T) stop Q (g ()) (k.setFrame f x)) :
    Ends (sem T) stop Q (setFrameMem f mem >>= g) k := by
  have hset : ∀ x intr, exec T intr (.setFrame f x) k = some ((), k.setFrame f x) :=
    fun _ _ => rfl
  exact .bind (call_ends (exec_getFrame hf) (call_ends_last (hset _) (h _)))

theorem copyMeta_ends {f : Nat} {src : V4l2Buffer} {g : Int → C α} (hf : f ≠ 0)
    (h : ∀ x, Ends (sem T) stop Q (g 0) (k.setFrame f x)) :
    Ends (sem T) stop Q (avFrameCopyMetaFromV4l2Buffer f src >>= g) k := by
  have hset : ∀ x intr, exec T intr (.setFrame f x) k = some ((), k.setFrame f x) :=
    fun _ _ => rfl
  exact .bind (call_ends (exec_getFrame hf) (call_ends (hset _) (.pure (h _))))

/-! ## One round of the loop -/

/-- The loop stands before frame `i`; the length in the device's buffer is as it was. -/
structure Round (T : Trial) (len count i : Nat) (k : State) : Prop where
  le : i ≤ count
  count : k.device.rb.count = count
  length : k.device.buf.length = len
  allocs : k.allocs = i
  maps : k.maps = i
  passed : ∀ j, j < i → Passes T len j
  bad : k.bad = [] ↔ i ≤ maxDeviceFrames

/-- The frames are all there: the table had to have room for them. -/
theorem inside_at_end {count : Nat} (h : Round T len count count k) :
    Inside T 0 k ↔ Fits T len count := by
  have hnone : ¬ ∃ i, i < k.allocs ∧ T.alloc i = 0 := by
    rintro ⟨i, hi, h0⟩
    rw [h.allocs] at hi
    exact (h.passed i hi).1 h0
  unfold Inside
  rw [h.bad]
  constructor
  · rintro ⟨hle, -⟩ i hi -
    exact ⟨by omega, (h.passed i hi).1⟩
  · intro hfits
    refine ⟨?_, fun h => absurd h hnone⟩
    cases count with
    | zero => omega
    | succ n =>
      -- what the last frame needed is the bound on all of them
      have hlast := hfits n (by omega) fun j hj => h.passed j (by omega)
      have : n < maxDeviceFrames := hlast.1
      omega

/-- `talloc` has failed. -/
theorem not_fits_of_null {count : Nat} (h : Round T len count i k) (hi : i < count)
    (h0 : T.alloc i = 0) : ¬ Fits T len count :=
  fun hfits => (hfits i hi h.passed).2 h0

/-- `mmap` has failed: the loop goes no further. -/
theorem fits_of_unmapped {count : Nat} (h : Round T len count i k) (hi : i < count)
    (h0 : T.alloc i ≠ 0) (hmap : (T.mapped len i).isOk ≠ true) :
    Fits T len count ↔ i < maxDeviceFrames := by
  constructor
  · intro hfits
    exact (hfits i hi h.passed).1
  · intro hlt j hj hpass
    -- a frame behind the failed one is never asked for
    have hji : j ≤ i := by
      by_contra hij
      have hp : Passes T len i := hpass i (by omega)
      exact hmap hp.2
    rcases Nat.lt_or_eq_of_le hji with hlt' | rfl
    · exact ⟨by omega, (h.passed j hlt').1⟩
    · exact ⟨hlt, h0⟩

/-- What a round comes to. -/
def AfterRound (T : Trial) (len count i : Nat) (r : Nat ⊕ Int) (k : State) : Prop :=
  r.elim (fun i' => i' = i + 1 ∧ i < count ∧ Round T len count i' k)
    fun r => Inside T r k ↔ Fits T len count

/-- Between the store of frame `i` and its `mmap`. -/
structure Stored (len count i : Nat) (k : State) : Prop where
  count : k.device.rb.count = count
  length : k.device.buf.length = len
  allocs : k.allocs = i + 1
  maps : k.maps = i
  bad : k.bad = [] ↔ i < maxDeviceFrames

theorem Stored.setFrame {count f : Nat} {x : AvFrame} (h : Stored len count i k) (hf : f ≠ 0) :
    Stored len count i (k.setFrame f x) := by
  rw [State.setFrame, touch_of_ne hf]
  exact ⟨h.count, h.length, h.allocs, h.maps, h.bad⟩

theorem Round.stored {count f : Nat} (h : Round T len count i k) (hf : f ≠ 0) :
    Stored len count i ((({ k with allocs := i + 1 } : State).setFrame f {}).storeSlot i f) := by
  rw [State.setFrame, touch_of_ne hf, State.storeSlot]
  split
  · rename_i hi
    exact ⟨h.count, h.length, rfl, h.maps, h.bad.trans ⟨fun _ => hi, Nat.le_of_lt⟩⟩
  · rename_i hi
    have hbad : .slot i :: k.bad = [] ↔ i < maxDeviceFrames :=
      ⟨fun h => (List.cons_ne_nil _ _ h).elim, fun h => absurd h hi⟩
    exact ⟨h.count, h.length, rfl, h.maps, hbad⟩

theorem round_ends {count : Nat} (hdev : dev ≠ 0) (h : Round T len count i k) :
    Ends (sem T) stop (AfterRound T len count i) (avDeviceSetupBuffer dev i) k := by
  refine call_ends (r := k.device) (fun _ => rfl) ?_
  split
  · rename_i hi
    rw [h.count] at hi
    -- `av_frame_new`: the assertion on its argument, then the allocation
    refine .bind (.bind ?_)
    rw [decide_eq_true hdev]
    apply Ends.pure
    have hnew : ∀ intr, exec T intr (.chunkNew dev) k =
        some (T.alloc i, { k with allocs := i + 1 }) := by
      intro intr
      show some (T.alloc k.allocs, { k with allocs := k.allocs + 1 }) = _
      rw [h.allocs]
    refine call_ends hnew ?_
    by_cases h0 : T.alloc i = 0
    · -- the failed frame is initialised through the null pointer
      rw [h0]
      refine call_ends (fun _ => rfl) (call_ends (fun _ => rfl) ?_)
      apply Ends.pure
      refine call_ends (fun _ => rfl) ?_
      rw [if_pos rfl]
      refine call_ends (fun _ => rfl) ?_
      apply Ends.pure
      show Inside T (-1) _ ↔ Fits T len count
      have hfits := not_fits_of_null h hi h0
      have hbad : (((({ k with allocs := i + 1 } : State).touch 0).setFrame 0 {}).storeSlot
          i 0).bad ≠ [] := bad_storeSlot_ne bad_touch_zero
      exact ⟨fun hin => absurd hin.1 hbad, fun hf => absurd hf hfits⟩
    · refine call_ends (fun _ => rfl) (call_ends (fun _ => rfl) ?_)
      apply Ends.pure
      refine call_ends (fun _ => rfl) ?_
      rw [if_neg h0, touch_of_ne h0]
      -- the frame goes into the table, whether or not there is a slot for it
      have hstored := h.stored (f := T.alloc i) h0
      generalize (({ k with allocs := i + 1 } : State).setFrame (T.alloc i) {}).storeSlot i
        (T.alloc i) = k₁ at hstored
      refine updateDevice_ends (call_ends (fun _ => rfl) (copyMeta_ends h0 fun x => ?_))
      -- the query for the buffer and the copy of its description
      have hcopied :
          Stored len count i (State.setFrame
            { k₁ with device := { k₁.device with buf := { k₁.device.buf with
              index := i, type := v4l2BufTypeVideoCapture, memory := v4l2MemoryMmap } } }
            (T.alloc i) x) :=
        Stored.setFrame ⟨hstored.count, hstored.length, hstored.allocs, hstored.maps,
          hstored.bad⟩ h0
      generalize State.setFrame _ (T.alloc i) x = k₂ at hcopied
      -- only now the memory of the frame is mapped
      have hmmap : ∀ file intr, exec T intr (.mmap k₁.device.buf.length true file) k₂ =
          some (T.mapped len i, { k₂ with maps := i + 1 }) := by
        intro file intr
        show some (T.mapped k₁.device.buf.length k₂.maps,
          { k₂ with maps := k₂.maps + 1 }) = _
        rw [hstored.length, hcopied.maps]
      refine call_ends (hmmap _) ?_
      have hkept : ∀ x, ((({ k₂ with maps := i + 1 } : State).setFrame (T.alloc i) x).bad = [] ↔
          i < maxDeviceFrames) := by
        intro x
        rw [State.setFrame, touch_of_ne h0]
        exact hcopied.bad
      cases hm : T.mapped len i with
      | error e =>
        refine setFrameMem_ends h0 fun x => call_ends (fun _ => rfl) ?_
        apply Ends.pure
        show Inside T (-1) _ ↔ Fits T len count
        -- the call returns -1 and leaves the later frames alone
        have hunmapped : (T.mapped len i).isOk ≠ true := by
          rw [hm]
          exact Bool.false_ne_true
        rw [fits_of_unmapped h hi h0 hunmapped, ← hkept x]
        exact ⟨fun hin => hin.1, fun hbad => ⟨hbad, fun _ => rfl⟩⟩
      | ok mem =>
        refine setFrameMem_ends h0 fun x => ?_
        apply Ends.pure
        refine ⟨rfl, hi, ?_⟩
        -- on to the next frame
        have hpass : Passes T len i := ⟨h0, by rw [hm]; rfl⟩
        have hbad := (hkept x).trans Nat.succ_le_iff.symm
        rw [State.setFrame, touch_of_ne h0] at hbad ⊢
        refine ⟨hi, hcopied.count, hcopied.length, hcopied.allocs, rfl, fun j hj => ?_, hbad⟩
        rcases Nat.lt_succ_iff_lt_or_eq.1 hj with hlt | rfl
        · exact h.passed j hlt
        · exact hpass
  · rename_i hi
    rw [h.count] at hi
    have hcount : i = count := by
      have := h.le
      omega
    subst hcount
    apply Ends.pure
    exact inside_at_end h

/-- The loop: each round leaves fewer frames. -/
theorem loop_ends {count : Nat} (hdev : dev ≠ 0) (h : Round T len count i k) :
    Ends (sem T) stop (fun r k' => Inside T r k' ↔ Fits T len count)
      (Prog.iter (avDeviceSetupBuffer dev) i) k := by
  refine Ends.iter (I := Round T len count) (R := fun _ _ r k' => Inside T r k' ↔
    Fits T len count)
    (fun i _ => count - i) (fun i k hk => (round_ends hdev hk).mono fun r k' hr => ?_) h
  cases r with
  | inl i' =>
    obtain ⟨rfl, hi, hround⟩ := hr
    refine ⟨hround, ?_, fun _ _ => id⟩
    omega
  | inr r => exact hr

/-! ## The whole call -/

/-- No frame has been asked for. -/
structure Fresh (len : Nat) (k : State) : Prop where
  length : k.device.buf.length = len
  allocs : k.allocs = 0
  maps : k.maps = 0
  bad : k.bad = []

theorem reqbufs_ends {fd : Int} {rb : V4l2Requestbuffers}
    {Q : Except Errno V4l2Requestbuffers → State → Prop}
    (hintr : 0 < k.signals → Q (.error .EINTR) { k with signals := k.signals - 1 })
    (hreply : Q T.reply k) : Ends (sem T) stop Q (call (.ioctl fd (.reqbufs rb))) k := by
  have hlive : sem T (.ioctl fd (.reqbufs rb)) k T.reply k := ⟨false, rfl⟩
  refine Ends.last (E := sys) (o := Sys.ioctl fd (.reqbufs rb)) (.inr ⟨_, _, hlive⟩)
    fun r k' hs => ?_
  obtain ⟨intr, hs⟩ := hs
  change (if intr = true ∧ 0 < k.signals then _ else _) = _ at hs
  split at hs
  · rename_i hi
    cases hs
    exact hintr hi.2
  · cases hs
    exact hreply

/-- Where the request succeeds with a count that passes the assertion, every frame the loop gets to
    has a slot and can be allocated. -/
def Agrees (T : Trial) (len : Nat) : Prop :=
  ∀ rb, T.reply = .ok rb → 2 < rb.count → Fits T len rb.count

/-- Whatever the driver answers and whatever `talloc` and `mmap` come to: the call ends, unless
    its assertions fail, and it has stayed inside of the table and off the null pointer exactly if
    `Agrees`. -/
theorem setup_buffers_inside_iff (T : Trial) (dev : Nat) (d : AvDevice) (frame : Nat → AvFrame)
    (signals : Nat) :
    Ends (sem T) (Aborts T dev) (fun r k => Inside T r k ↔ Agrees T d.buf.length)
      (avDeviceSetupBuffers dev) (start d frame signals) := by
  refine assert_ends (fun hb => ⟨rfl, .inl (not_not.1 (of_decide_eq_false hb))⟩) fun hb => ?_
  have hdev : dev ≠ 0 := of_decide_eq_true hb
  refine updateDevice_ends (call_ends (fun _ => rfl) (.bind ?_))
  refine eintrLoop_ends (I := Fresh d.buf.length) State.signals (fun k hk => ?_)
    ⟨rfl, rfl, rfl, rfl⟩
  refine reqbufs_ends (fun hs => ⟨fun _ => ⟨?_, ?_⟩, fun hne => absurd rfl hne⟩) ?_
  · exact ⟨hk.length, hk.allocs, hk.maps, hk.bad⟩
  · show k.signals - 1 < k.signals
    omega
  -- the answer to the request, which is not an interruption
  refine ⟨fun he => absurd he T.reply_ne, fun _ => ?_⟩
  cases hreply : T.reply with
  | error e =>
    have hagrees : Agrees T d.buf.length := by
      intro rb hrb
      rw [hreply] at hrb
      cases hrb
    refine call_ends (fun _ => rfl) ?_
    apply Ends.pure
    show Inside T (-1) k ↔ Agrees T d.buf.length
    exact ⟨fun _ => hagrees, fun _ => ⟨hk.bad, fun _ => rfl⟩⟩
  | ok rb =>
    refine updateDevice_ends (call_ends (fun _ => rfl) (assert_ends (fun hb => ?_) fun hb => ?_))
    · exact ⟨rfl, .inr ⟨rb, hreply, Nat.le_of_not_lt (of_decide_eq_false hb)⟩⟩
    · have hcount : 2 < rb.count := of_decide_eq_true hb
      have hagrees : Agrees T d.buf.length ↔ Fits T d.buf.length rb.count := by
        constructor
        · exact fun h => h rb hreply hcount
        · intro h rb' hrb' _
          rw [hreply] at hrb'
          cases hrb'
          exact h
      rw [hagrees]
      refine loop_ends hdev ⟨Nat.zero_le _, rfl, hk.length, hk.allocs, hk.maps, ?_, ?_⟩
      · intro j hj
        omega
      · exact ⟨fun _ => Nat.zero_le _, fun _ => hk.bad⟩

/-- A new device has no length in its buffer: its first `mmap` fails, so only the first frame has
    to be allocated. -/
theorem fits_zero_iff {count : Nat} (hcount : 0 < count) : Fits T 0 count ↔ T.alloc 0 ≠ 0 := by
  constructor
  · intro hfits
    exact (hfits 0 hcount fun j hj => absurd hj (Nat.not_lt_zero j)).2
  · intro h0 i hi hpass
    have hi0 : i = 0 := by
      by_contra hne
      have hp : Passes T 0 0 := hpass 0 (by omega)
      cases hp.2
    subst hi0
    exact ⟨by decide, h0⟩

/-- The driver grants three buffers, and the first frame cannot be allocated. -/
def firstFails : Trial where
  reply := .ok ⟨3, v4l2BufTypeVideoCapture, v4l2MemoryMmap⟩
  reply_ne := fun h => by cases h
  alloc := fun i => if i = 0 then 0 else 4096 + i
  mmap := fun i => .ok (1048576 * (i + 1))

/-- The first frame of a new device is initialised through the null pointer. -/
theorem first_frame_null : ∃ k, Exec (sem firstFails) (avDeviceSetupBuffers 1)
    (start {} (fun _ => {}) 0) (-1) k ∧ .null ∈ k.bad ∧ ¬ Inside firstFails (-1) k := by
  have hplay : ((play (exec firstFails) (fun _ _ _ => true) 200 (List.replicate 200 false)
      (avDeviceSetupBuffers 1) (start {} (fun _ => {}) 0)).any fun x =>
        decide (x.1 = -1 ∧ .null ∈ x.2.bad)) = true := by decide +kernel
  obtain ⟨r, k, hrun, hk⟩ := exists_exec_of_play hplay
  obtain ⟨hr, hbad⟩ : r = -1 ∧ .null ∈ k.bad := of_decide_eq_true hk
  subst hr
  refine ⟨k, hrun, hbad, fun hin => ?_⟩
  have hnil : k.bad = [] := hin.1
  rw [hnil] at hbad
  cases hbad

end Buffers
end AnekVideo
