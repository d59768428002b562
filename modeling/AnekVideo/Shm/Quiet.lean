/-
  AnekVideo.Shm.Quiet

  The parts of the shm code that only handle descriptors and private memory.
-/
import AnekVideo.Shm.Steps

namespace AnekVideo

open Interact Kernel

/-! ## Which operations the helpers issue -/

/-- The operations of the helpers: they log, end the process, read the devices of random
    numbers and write to private memory. -/
def HelperOp : Sys → Prop
  | .log _ _ _ | .abort | .rand | .getHasWhined | .setHasWhined _ | .open _ | .close _
  | .read _ _ _ | .store8 _ _ => True
  | _ => False

theorem HelperOp.quiet {o : Sys} (ho : HelperOp o) : QuietOp o := by
  cases o <;> first | exact ho.elim | trivial

variable {ok : Sys → Prop}

theorem avAssert_only (hlog : ∀ l f a, ok (.log l f a)) (habort : ok .abort) (b : Bool)
    (expr func : String) : (avAssert b expr func).Only ok := by
  unfold avAssert
  split
  · exact .ret
  · refine .op (hlog _ _ _) fun _ => ?_
    exact .op habort fun e => e.elim

theorem logIfError_only {α : Type} (hlog : ∀ l f a, ok (.log l f a)) (r : Except Errno α)
    (fmt : String) (args : List LogArg) : (logIfError r fmt args).Only ok := by
  cases r with
  | error e => exact .last (hlog _ _ _)
  | ok a => exact .ret

theorem eintrLoop_only {α : Type} {c : C (Except Errno α)} (hc : c.Only ok) :
    (eintrLoop c).Only ok := by
  refine .iter fun _ => .bind hc fun r => ?_
  cases r with
  | error e =>
    dsimp only
    split
    · exact .ret
    · exact .ret
  | ok a => exact .ret

theorem avClose_only {fd : Int} (hc : ok (.close fd)) : (avClose fd).Only ok :=
  eintrLoop_only (.last hc)

theorem avAssert_helper (b : Bool) (expr func : String) : (avAssert b expr func).Only HelperOp :=
  avAssert_only (fun _ _ _ => trivial) trivial b expr func

theorem avClose_helper (fd : Int) : (avClose fd).Only HelperOp := avClose_only trivial

theorem avLoopRead_helper (fd : Int) (data size : Nat) :
    (avLoopRead fd data size).Only HelperOp := by
  have hread : ∀ buf count, (avRead fd buf count).Only HelperOp := fun buf count =>
    eintrLoop_only (.last trivial)
  refine .bind (avAssert_helper ..) fun _ => ?_
  refine .bind (avAssert_helper ..) fun _ => ?_
  refine .bind (avAssert_helper ..) fun _ => ?_
  refine .iter fun s => ?_
  split
  · refine .bind (hread _ _) fun r => ?_
    cases r with
    | error e => exact .ret
    | ok n =>
      dsimp only
      split
      · exact .ret
      · exact .ret
  · exact .ret

theorem randomDevice_helper (path : String) (retData length : Nat) :
    (randomDevice path retData length).Only HelperOp := by
  refine .op trivial fun r => ?_
  cases r with
  | error e => exact .ret
  | ok fd =>
    refine .bind (avLoopRead_helper ..) fun r => ?_
    refine .bind (avClose_helper fd) fun _ => ?_
    cases r with
    | error e => exact .ret
    | ok n => exact .ret

theorem randomProper_helper (retData length : Nat) :
    (randomProper retData length).Only HelperOp := by
  refine .bind (avAssert_helper ..) fun _ => ?_
  refine .bind (avAssert_helper ..) fun _ => ?_
  refine .iter fun s => ?_
  obtain ⟨paths, ret⟩ := s
  cases paths with
  | nil => exact .ret
  | cons path rest =>
    refine .bind (randomDevice_helper ..) fun r => ?_
    split
    · exact .ret
    · exact .ret

theorem whine_helper (fmt : String) : (whine fmt).Only HelperOp := by
  refine .op trivial fun b => ?_
  split
  · exact .ret
  · refine .op trivial fun _ => ?_
    exact .last trivial

theorem avRandom_helper (retData length : Nat) : (avRandom retData length).Only HelperOp := by
  refine .bind (avAssert_helper ..) fun _ => ?_
  refine .bind (avAssert_helper ..) fun _ => ?_
  refine .bind (randomProper_helper ..) fun ret => ?_
  split
  · exact .ret
  · refine .bind (whine_helper ..) fun _ => ?_
    refine .iter fun s => ?_
    split
    · refine .op trivial fun _ => ?_
      exact .op trivial fun _ => .ret
    · exact .ret

theorem avAssert_quiet (b : Bool) (expr func : String) : (avAssert b expr func).Only QuietOp :=
  (avAssert_helper b expr func).mono fun _ => HelperOp.quiet

theorem avClose_quiet (fd : Int) : (avClose fd).Only QuietOp :=
  (avClose_helper fd).mono fun _ => HelperOp.quiet

theorem avRandom_quiet (retData length : Nat) : (avRandom retData length).Only QuietOp :=
  (avRandom_helper retData length).mono fun _ => HelperOp.quiet

theorem logIfError_quiet {α : Type} (r : Except Errno α) (fmt : String) (args : List LogArg) :
    (logIfError r fmt args).Only QuietOp :=
  logIfError_only (fun _ _ _ => trivial) r fmt args

theorem call_quiet {o : Sys} (ho : QuietOp o := by trivial) : (call o).Only QuietOp := .last ho

/-- The operations of `av_shm_attach_ro`. -/
def AttachOp : Sys → Prop
  | .shmOpen _ flags _ => flags = .rdonly
  | .log _ _ _ | .abort | .fstat _ | .mmap _ _ _ | .close _ => True
  | _ => False

theorem avShmAttachRo_only (h : Host) (m : AvShm) (id : UInt32) :
    (avShmAttachRo h m id).Only AttachOp := by
  have hclose : ∀ fd, (avClose fd).Only AttachOp := fun fd => avClose_only trivial
  have hfail : ∀ {l f a} fd m, (call (.log l f a) >>= fun _ => avShmAttachFail fd m).Only
      AttachOp :=
    fun fd m => .op trivial fun _ => .bind (hclose fd) fun _ => .ret
  refine .op rfl fun r => ?_
  cases r with
  | error e =>
    dsimp only
    split
    · exact .op trivial fun _ => .ret
    · exact .ret
  | ok fd =>
    refine .op trivial fun r => ?_
    cases r with
    | error e => exact hfail _ _
    | ok s =>
      dsimp only
      split
      · exact hfail _ _
      · refine .op trivial fun r => ?_
        cases r with
        | error e => exact hfail _ _
        | ok a =>
          refine .bind (hclose fd) fun r => ?_
          exact .bind (avAssert_only (fun _ _ _ => trivial) trivial ..) fun _ => .ret

/-- The operations of `av_shm_free`. -/
def FreeOp : Sys → Prop
  | .log _ _ _ | .abort | .munmap _ _ | .shmUnlink _ => True
  | _ => False

theorem avShmFree_only (h : Host) (m : AvShm) : (avShmFree h m).Only FreeOp := by
  have hassert : ∀ b e f, (avAssert b e f).Only FreeOp :=
    avAssert_only (fun _ _ _ => trivial) trivial
  have hlog : ∀ {α : Type} (r : Except Errno α) f a, (logIfError r f a).Only FreeOp :=
    fun r f a => logIfError_only (fun _ _ _ => trivial) r f a
  refine .bind (hassert _ _ _) fun _ => ?_
  refine .bind (hassert _ _ _) fun _ => ?_
  refine .bind (hassert _ _ _) fun _ => ?_
  dsimp only
  split
  · refine .op trivial fun r => ?_
    exact .bind (hlog _ _ _) fun _ => .ret
  · refine .op trivial fun r => .bind (hlog _ _ _) fun _ => ?_
    split
    · refine .op trivial fun r => ?_
      exact .bind (hlog _ _ _) fun _ => .ret
    · exact .ret

/-- What the cleanup of an attached segment asks for. -/
theorem avShmCleanupSeg_only {h : Host} {id : UInt32} {seg : AvShm}
    (hfree : (avShmFree h seg).Only ok) (hload : ∀ a, ok (.atomicLoad a))
    (hkill : ∀ p, ok (.kill p)) (hlog : ∀ l f a, ok (.log l f a))
    (hunlink : ok (.shmUnlink (segmentName 128 id))) : (avShmCleanupSeg h id seg).Only ok := by
  have hdone : (avShmFree h seg >>= fun _ => pure ()).Only ok := .bind hfree fun _ => .ret
  unfold avShmCleanupSeg
  split
  · exact hdone
  · refine .op (hload _) fun marker => ?_
    split
    · exact hdone
    · refine .op (hload _) fun pid => ?_
      split
      · exact hdone
      · refine .op (hkill _) fun r => ?_
        split
        · exact hdone
        · -- the owner is dead
          refine .bind hfree fun _ => .op hunlink fun r => ?_
          cases r with
          | ok _ => exact .ret
          | error e =>
            dsimp only
            split
            · exact .last (hlog _ _ _)
            · exact .ret

/-- The operations of `av_shm_cleanup`. -/
def CleanupOp : Sys → Prop
  | .shmOpen _ flags _ => flags = .rdonly
  | .log _ _ _ | .abort | .fstat _ | .mmap _ _ _ | .close _ | .munmap _ _ | .shmUnlink _
  | .atomicLoad _ | .kill _ | .opendir _ | .readdir _ | .closedir _ => True
  | _ => False

theorem AttachOp.cleanup {o : Sys} (ho : AttachOp o) : CleanupOp o := by
  cases o <;> first | exact ho | exact ho.elim

theorem FreeOp.cleanup {o : Sys} (ho : FreeOp o) : CleanupOp o := by
  cases o <;> first | exact ho.elim | trivial

theorem avShmCleanupEntry_only (h : Host) (e : CStr) :
    (avShmCleanupEntry h e).Only CleanupOp := by
  unfold avShmCleanupEntry
  split
  · exact .ret
  · refine .bind ((avShmAttachRo_only ..).mono fun _ => AttachOp.cleanup) fun r => ?_
    obtain ⟨r, seg⟩ := r
    dsimp only
    split
    · exact .ret
    · exact avShmCleanupSeg_only ((avShmFree_only ..).mono fun _ => FreeOp.cleanup)
        (fun _ => trivial) (fun _ => trivial) (fun _ _ _ => trivial) trivial

theorem avShmCleanup_only (h : Host) : (avShmCleanup h).Only CleanupOp := by
  refine .op trivial fun r => ?_
  cases r with
  | error e => exact .op trivial fun _ => .ret
  | ok d =>
    refine .bind (.iter fun _ => .op trivial fun r => ?_) fun _ => .op trivial fun _ => .ret
    cases r with
    | none => exact .ret
    | some name => exact .bind (avShmCleanupEntry_only h name) fun _ => .ret

/-! ## Quiet programs under the protocol -/

variable {h : Host} {b : Bool} {t : Nat} {α : Type} {P : Kernel → Prop}

/-- One operation of process `t`, then the rest. -/
theorem triple_op {o : Sys} {f : o.Resp → C α} {M : o.Resp → Kernel → Prop}
    {Q : α → Kernel → Prop} (hst : (view h b t).Stable P)
    (hop : ∀ ch k r k', P k → (b = true → UnlinksOpened t o k) →
      exec h ch t o k = some (r, k') → Guar h b t o k r k' ∧ M r k')
    (hf : ∀ r, (view h b t).Triple (M r) (f r) Q) : (view h b t).Triple P (call o >>= f) Q :=
  Env.Triple.op hst (fun k r k' hk ⟨ch, hpol, he⟩ => hop ch k r k' hk hpol he) hf

/-- A quiet program keeps everything that no quiet operation changes. -/
theorem triple_quiet {p : C α} (hp : p.Only QuietOp) (hst : (view h b t).Stable P)
    (hP : QuietKept t P) (hi : ∀ k, P k → Inv h k) : (view h b t).Triple P p fun _ => P := by
  refine Env.Triple.only hp hst fun o k r k' ho hk hs => ?_
  obtain ⟨ch, -, he⟩ := hs
  have hq : Quiet t k k' := exec_quiet ho he
  exact ⟨.quiet (hi k hk) ho hq, hP k k' hq hk⟩

end AnekVideo
