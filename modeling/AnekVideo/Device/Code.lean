/-
  AnekVideo.Device.Code

  src/frame.c, src/device.c and `_talloc_free` of ccan/talloc/talloc.c.

  Pointers to chunks are numbers, 0 for NULL.  The tests `dev < 0` and
  `buf < 0` on the results of `talloc` are false of every pointer, so the
  branches under them are not there.
-/
import AnekVideo.Util

namespace AnekVideo

open Interact

/-! ## Constants of linux/videodev2.h -/

def v4l2CapVideoCapture : Nat := 0x00000001
def v4l2CapStreaming : Nat := 0x04000000
def v4l2BufTypeVideoCapture : Nat := 1
def v4l2FieldAny : Nat := 0
def v4l2MemoryMmap : Nat := 1

/-- `v4l2_fourcc('M', 'J', 'P', 'G')`. -/
def v4l2PixFmtMjpeg : Nat := 0x47504A4D

/-- `MAP_FAILED`, as the address a frame keeps. -/
def frameMapFailed : Int := -1

/-! ## Destructors -/

/-- `av_device_destroy`. -/
def avDeviceDestroy (dev : Nat) : C Int := do
  let d ← call (.getDevice dev)
  match ← call (.close d.fd) with
  | .ok _ => return 0
  | .error _ => return -1

/-- `av_frame_destroy`. -/
def avFrameDestroy (f : Nat) : C Int := do
  call (.log .debug "destroying av_frame %p" [.ptr f])
  return 0

/-- The destructor `d` called on `ptr`.  The mark of one that is running is none. -/
def Destructor.run (ptr : Nat) : Destructor → C Int
  | .avDeviceDestroy => AnekVideo.avDeviceDestroy ptr
  | .avFrameDestroy => AnekVideo.avFrameDestroy ptr
  | .running => return -1

/-! ## talloc_free -/

/-- The part of `_talloc_free` that runs the destructor: whether it refuses. -/
def tallocDestruct (ptr : Nat) : C Bool := do
  match ← call (.chunkDestructor ptr) with
  | none => return false
  | some .running => return true
  | some d =>
    call (.chunkSetDestructor ptr (some .running))
    let r ← d.run ptr
    if r = -1 then
      call (.chunkSetDestructor ptr (some d))
      return true
    else
      call (.chunkSetDestructor ptr none)
      return false

/-- Where a call of `_talloc_free` stands: before its first line, in
    `while (tc->child)`, or returning. -/
inductive FreePc
  | enter (ptr : Nat)
  | children (ptr : Nat)
  | back (r : Int)
  deriving DecidableEq, Repr

/-- One round of `_talloc_free`.  The calls it is nested in are a stack, each with the
    child it is freeing. -/
def tallocFreeRound : FreePc × List (Nat × Nat) → C ((FreePc × List (Nat × Nat)) ⊕ Int)
  | (.enter ptr, calls) => do
    if ptr = 0 then return .inl (.back (-1), calls)
    else
      let refused ← tallocDestruct ptr
      if refused then return .inl (.back (-1), calls)
      else
        call (.chunkDetach ptr)
        return .inl (.children ptr, calls)
  | (.children ptr, calls) => do
    let child ← call (.chunkChild ptr)
    if child = 0 then
      call (.chunkRelease ptr)
      return .inl (.back 0, calls)
    else return .inl (.enter child, (ptr, child) :: calls)
  | (.back r, []) => return .inr r
  | (.back r, (ptr, child) :: calls) => do
    if r = -1 then
      let newParent ← call (.chunkParent ptr)
      call (.chunkSteal newParent child)
      return .inl (.children ptr, calls)
    else return .inl (.children ptr, calls)

/-- `_talloc_free`, of a chunk without references. -/
def tallocFree (ptr : Nat) : C Int := Prog.iter tallocFreeRound (.enter ptr, [])

/-! ## Frames -/

/-- `av_frame_new`. -/
def avFrameNew (cnt : Nat) : C Nat := do
  avAssert (decide (cnt ≠ 0)) "cnt" "av_frame_new"
  let buf ← call (.chunkNew cnt)
  call (.chunkSetDestructor buf (some .avFrameDestroy))
  call (.setFrame buf {})
  return buf

/-- `av_frame_new_for_device`. -/
def avFrameNewForDevice (dev : Nat) : C Nat := avFrameNew dev

/-- `av_frame_copy_meta_from_v4l2_buffer`. -/
def avFrameCopyMetaFromV4l2Buffer (dst : Nat) (src : V4l2Buffer) : C Int := do
  let f ← call (.getFrame dst)
  call (.setFrame dst { f with
    field := src.field, length := src.length, sequence := src.sequence,
    timestamp := src.timestamp, timecode := src.timecode })
  return 0

/-- `f->mem = mem`. -/
def setFrameMem (f : Nat) (mem : Int) : C Unit := do
  let x ← call (.getFrame f)
  call (.setFrame f { x with mem := mem })

/-! ## Devices -/

/-- An assignment to fields of `*dev`. -/
def updateDevice (dev : Nat) (upd : AvDevice → AvDevice) : C Unit := do
  let d ← call (.getDevice dev)
  call (.setDevice dev (upd d))

/-- `av_device_new`. -/
def avDeviceNew (server : Nat) : C Nat := do
  let dev ← call (.chunkNew server)
  call (.chunkSetDestructor dev (some .avDeviceDestroy))
  call (.setDevice dev {})
  return dev

/-- The body of the `for` loop of `av_device_setup_buffers`. -/
def avDeviceSetupBuffer (dev i : Nat) : C (Nat ⊕ Int) := do
  let d ← call (.getDevice dev)
  if i < d.rb.count then
    let f ← avFrameNewForDevice dev
    call (.setFrameSlot dev i f)
    if f = 0 then
      call (.log .error "av_device_frame_new failed\n" [])
      return .inr (-1)
    else
      updateDevice dev fun d => { d with
        buf := { d.buf with
          index := i, type := v4l2BufTypeVideoCapture, memory := v4l2MemoryMmap } }
      let d ← call (.getDevice dev)
      let _ ← avFrameCopyMetaFromV4l2Buffer f d.buf
      match ← mmap d.buf.length true (some (d.fd, d.buf.offset)) with
      | .error _ =>
        setFrameMem f frameMapFailed
        call (.log .error "mmap failed\n" [])
        return .inr (-1)
      | .ok mem =>
        setFrameMem f mem
        return .inl (i + 1)
  else return .inr 0

/-- `av_device_setup_buffers`. -/
def avDeviceSetupBuffers (dev : Nat) : C Int := do
  avAssert (decide (dev ≠ 0)) "dev" "av_device_setup_buffers"
  let rb : V4l2Requestbuffers :=
    { count := maxDeviceFrames, type := v4l2BufTypeVideoCapture, memory := v4l2MemoryMmap }
  updateDevice dev fun d => { d with rb := rb }
  let d ← call (.getDevice dev)
  match ← avIoctl d.fd (.reqbufs d.rb) with
  | .error e =>
    call (.log .error "VIDIOC_REQBUFS failed: %s\n" [.strerror e])
    return -1
  | .ok rb =>
    updateDevice dev fun d => { d with rb := rb }
    call (.log .debug "VIDIOC_REQBUFS returned %i buffers\n" [.int rb.count])
    avAssert (decide (rb.count > 2)) "dev->rb.count > 2" "av_device_setup_buffers"
    Prog.iter (avDeviceSetupBuffer dev) 0

/-- What `av_device_setup_from_path` asks the driver for: its format, and frames of
    time 1/0. -/
def wantedFormat (fmt : V4l2Format) : V4l2Format :=
  { fmt with
    type := v4l2BufTypeVideoCapture
    pix := { fmt.pix with
      width := 0, height := 0, pixelformat := v4l2PixFmtMjpeg, field := v4l2FieldAny } }

def wantedParm : V4l2Streamparm :=
  { type := v4l2BufTypeVideoCapture, numerator := 1, denominator := 0 }

/-- The rest of `av_device_setup_from_path` once the capabilities are known. -/
def avDeviceNegotiate (dev : Nat) : C Int := do
  updateDevice dev fun d => { d with fmt := wantedFormat d.fmt }
  let d ← call (.getDevice dev)
  match ← avIoctl d.fd (.sFmt d.fmt) with
  | .error e =>
    call (.log .error "VIDIOC_S_FMT failed: %s.\n" [.strerror e])
    return -1
  | .ok fmt =>
    updateDevice dev fun d => { d with fmt := fmt }
    let _ ← avIoctl d.fd (.sParm wantedParm)
    let _ ← avDeviceSetupBuffers dev
    return 0

/-- `av_device_setup_from_path`. -/
def avDeviceSetupFromPath (dev : Nat) (path : String) : C Int := do
  match ← call (.open path) with
  | .error _ =>
    updateDevice dev fun d => { d with fd := -1 }
    call (.log .error "open(%s) failed\n" [.text path])
    return -1
  | .ok fd =>
    updateDevice dev fun d => { d with fd := fd }
    match ← avIoctl fd .querycap with
    | .error _ =>
      call (.log .error "VIDIOC_QUERYCAP failed\n" [])
      return -1
    | .ok cap =>
      updateDevice dev fun d => { d with cap := cap }
      if cap &&& v4l2CapVideoCapture = 0 then
        call (.log .error "Device does not have V4L2_CAP_VIDEO_CAPTURE\n" [])
        return -1
      else if cap &&& v4l2CapStreaming = 0 then
        call (.log .error "Device does not have V4L2_CAP_STREAMING\n" [])
        return -1
      else avDeviceNegotiate dev

/-- `av_device_new_from_path`: the device, or NULL. -/
def avDeviceNewFromPath (server : Nat) (path : String) : C Nat := do
  call (.log .debug "start\n" [])
  let dev ← avDeviceNew server
  if dev = 0 then
    -- `perror`, `exit(1)`
    let e ← call .abort
    return e.elim
  else
    let ret ← avDeviceSetupFromPath dev path
    if ret ≠ 0 then
      let _ ← tallocFree dev
      return 0
    else return dev

end AnekVideo
