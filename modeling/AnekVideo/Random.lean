/-
  AnekVideo.Random

  src/random.c: random bytes from a device, or from `rand()` where no device
  delivers them all.
-/
import AnekVideo.Util

namespace AnekVideo

open Interact

/-- What the static `has_whined` is initialised to. -/
def hasWhinedInit : Bool := true

/-- The table `devices`, without its closing NULL. -/
def devices : List String := ["/dev/urandom", "/dev/random"]

/-- The body of the `while` loop of `random_proper` for one device: `ret`. -/
def randomDevice (path : String) (retData length : Nat) : C Int := do
  match ← call (.open path) with
  | .error _ => return -1
  | .ok fd =>
    let r ← avLoopRead fd retData length
    let _ ← avClose fd
    match r with
    | .error _ => return -1
    -- an end of file before `length` bytes is a failure, too
    | .ok n => return if n ≠ length then -1 else 0

/-- `random_proper`.  The loop state is the rest of the table and `ret`. -/
def randomProper (retData length : Nat) : C Int := do
  avAssert (decide (retData ≠ 0)) "ret_data" "random_proper"
  avAssert (decide (length > 0)) "length > 0" "random_proper"
  Prog.iter (fun (s : List String × Int) =>
    match s.1 with
    | [] => return .inr s.2
    | path :: rest => do
      let ret ← randomDevice path retData length
      if ret = 0 then return .inr ret else return .inl (rest, ret)) (devices, -1)

/-- The warning both fallbacks share, given once per process. -/
def whine (fmt : String) : C Unit := do
  let hasWhined ← call .getHasWhined
  if hasWhined then return ()
  else
    call (.log .warn fmt [])
    call (.setHasWhined true)

/-- `av_random_seed`: the seed is the `unsigned int` at `seed`. -/
def avRandomSeed (seed : Nat) : C Unit := do
  let ret ← randomProper seed 4
  if ret < 0 then
    whine "Failed to get proper entropy. Falling back to seeding with current time."
    let t ← call .time
    call (.srand t)
  else
    let s ← call (.load32 seed)
    call (.srand s)

/-- `av_random`.  The loop state of the fallback is `p` and `l`. -/
def avRandom (retData length : Nat) : C Unit := do
  avAssert (decide (retData ≠ 0)) "ret_data" "av_random"
  avAssert (decide (length > 0)) "length > 0" "av_random"
  let ret ← randomProper retData length
  if 0 ≤ ret then return ()
  else
    whine "Failed to get proper entropy. Falling back to unsecure pseudo RNG."
    Prog.iter (fun (s : Nat × Nat) => do
      if s.2 > 0 then
        let r ← call .rand
        call (.store8 s.1 (UInt8.ofNat r.toNat))
        return .inl (s.1 + 1, s.2 - 1)
      else return .inr ()) (retData, length)

end AnekVideo
