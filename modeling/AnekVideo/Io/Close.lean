/-
  AnekVideo.Io.Close

  `av_close` of src/util.c against what `close` may do on Linux and POSIX, with
  other threads that open files in the meantime.

  The loop takes `EINTR` to mean that the descriptor is still open.  Where the
  interrupted attempt has released it, the next attempt closes whatever was
  opened under the number since, or fails although the close took effect.
-/
import AnekVideo.Device.World
import AnekVideo.Util

namespace AnekVideo
namespace Close

open Interact

/-! ## Attempts to close -/

/-- What one attempt comes to. -/
inductive Outcome
  /-- It returns 0. -/
  | released
  /-- It fails with `EBADF` and has no effect. -/
  | refused
  /-- It fails with `EINTR`, and the descriptor is open. -/
  | kept
  /-- It fails with `EINTR`, and the descriptor is released. -/
  | lost
  deriving DecidableEq, Repr

/-- The open files of the process; the attempts of the call and the files it has released, the
    latest first. -/
structure Files where
  fds : FdTable
  attempts : List Outcome
  released : List Nat

namespace Files

/-- One attempt. -/
def attempt (ch : Outcome) (fd : Int) (k : Files) : Option (Except Errno Unit × Files) :=
  match ch, k.fds.file fd with
  | .released, some f =>
    some (.ok (), ⟨k.fds.close fd, .released :: k.attempts, f :: k.released⟩)
  | .refused, _ => some (.error .EBADF, { k with attempts := .refused :: k.attempts })
  | .kept, some _ => some (.error .EINTR, { k with attempts := .kept :: k.attempts })
  | .lost, some f =>
    some (.error .EINTR, ⟨k.fds.close fd, .lost :: k.attempts, f :: k.released⟩)
  | _, none => none

def exec (ch : Outcome) : (o : Sys) → Files → Option (o.Resp × Files)
  | .close fd, k => k.attempt ch fd
  | _, _ => none

def sem : OpSem sys Files := fun o k r k' => ∃ ch, exec ch o k = some (r, k')

end Files

/-- Other threads open files, each of which takes the lowest free number. -/
inductive OthersOpen : Files → Files → Prop
  | refl (k : Files) : OthersOpen k k
  | step {k k' : Files} {n : Nat} (hn : n ∉ k'.fds.entries.map Prod.fst) :
      OthersOpen k k' → (∀ m, m < n → m ∈ k'.fds.entries.map Prod.fst) →
      OthersOpen k { k' with fds := k'.fds.open' n hn }

theorem OthersOpen.trans {k₁ k₂ k₃ : Files} (h : OthersOpen k₁ k₂)
    (h' : OthersOpen k₂ k₃) :
    OthersOpen k₁ k₃ := by
  induction h' with
  | refl => exact h
  | step hn _ hlow ih => exact .step hn ih hlow

/-- One thread that closes, among others that open files. -/
def closing : Env sys Files where
  sem := Files.sem
  rely := OthersOpen
  guar := fun _ _ _ _ => True
  rely_refl := .refl
  rely_trans := OthersOpen.trans

/-! ## What the call does -/

variable {k k' : Files} {fd : Int} {f : Nat} {r : Except Errno Unit} {ch : Outcome}

/-- The call has released nothing but the file `f`, once, and returns 0 if it has. -/
def ClosesOwn (f : Nat) (r : Except Errno Unit) (k : Files) : Prop :=
  (k.released = [] ∨ k.released = [f]) ∧ (f ∈ k.released → r = .ok ())

/-- Other threads keep the history, and the file under an open descriptor. -/
theorem OthersOpen.keeps (fd : Int) (f : Nat) (h : OthersOpen k k') : k'.attempts = k.attempts ∧
    k'.released = k.released ∧ (k.fds.file fd = some f → k'.fds.file fd = some f) := by
  induction h with
  | refl => exact ⟨rfl, rfl, id⟩
  | @step k' n hn _ _ ih =>
    refine ⟨ih.1, ih.2.1, fun hf => ?_⟩
    have hf' := ih.2.2 hf
    -- the new number is not the one that is open
    have hne : (n : Int) ≠ fd := by
      rintro rfl
      obtain ⟨m, hm, hmem⟩ := FdTable.mem_of_file hf'
      obtain rfl : n = m := Int.natCast_inj.1 hm
      exact hn (List.mem_map_of_mem hmem)
    show (List.find? _ ((n, k'.fds.next) :: k'.fds.entries)).map Prod.snd = some f
    rw [List.find?_cons_of_neg (by simpa using hne)]
    exact hf'

/-- Between two attempts: the file is open and nothing has been released, or an attempt has
    released it. -/
def Between (fd : Int) (f : Nat) (k : Files) : Prop :=
  (Outcome.lost ∉ k.attempts ∧ k.released = [] ∧ k.fds.file fd = some f) ∨
    (Outcome.lost ∈ k.attempts ∧ f ∈ k.released)

/-- After an attempt that returns `r`: interrupted, or right exactly if none was lost. -/
def After (fd : Int) (f : Nat) (r : Except Errno Unit) (k : Files) : Prop :=
  if r = .error .EINTR then Between fd f k else (ClosesOwn f r k ↔ Outcome.lost ∉ k.attempts)

theorem Between.stable : closing.Stable (Between fd f) := by
  intro k k' h hk
  obtain ⟨hatt, hrel, hfile⟩ := OthersOpen.keeps fd f h
  unfold Between
  rw [hatt, hrel]
  exact hk.imp_left fun ⟨hl, hr, hf⟩ => ⟨hl, hr, hfile hf⟩

theorem After.stable (r : Except Errno Unit) : closing.Stable (After fd f r) := by
  intro k k' h hk
  unfold After at hk ⊢
  split
  · rename_i hr
    rw [if_pos hr] at hk
    exact Between.stable k k' h hk
  · rename_i hr
    rw [if_neg hr] at hk
    obtain ⟨hatt, hrel, -⟩ := OthersOpen.keeps fd f h
    unfold ClosesOwn at hk ⊢
    rw [hatt, hrel]
    exact hk

end Close
end AnekVideo
