/-
  AnekVideo.Shm.Traces

  What the functions of shm.c ask for, and what comes of the answers.

  A run is read for its `sights`: the entries it lists, the names it opens, the
  sizes and mappings it is told and the places of its atomic accesses.  Each
  function has one lemma here, which lists all the sights its runs can have.
-/
import AnekVideo.Interact.Trace
import AnekVideo.Shm.Layout
import AnekVideo.Shm.Quiet

namespace AnekVideo

open Interact

/-- What a trace is read for. -/
inductive Sight
  | listed (entry : CStr)
  | attached (name : CStr)
  | made (name : CStr)
  | size (s : Nat)
  | mapped (r : Except Errno Nat)
  | load (a : Nat)
  | store (a : Nat) (v : UInt32)
  deriving DecidableEq

/-- What an operation and its answer show. -/
def sight : Event sys → Option Sight
  | ⟨.readdir _, some entry⟩ => some (.listed entry)
  | ⟨.shmOpen name .rdonly _, _⟩ => some (.attached name)
  | ⟨.shmOpen name .rdwrCreatExcl _, _⟩ => some (.made name)
  | ⟨.fstat _, .ok s⟩ => some (.size s)
  | ⟨.mmap _ _ _, r⟩ => some (.mapped r)
  | ⟨.atomicLoad a, _⟩ => some (.load a)
  | ⟨.atomicStore a v, _⟩ => some (.store a v)
  | _ => none

/-- The sights of a trace. -/
def sights (t : List (Event sys)) : List Sight := t.filterMap sight

variable {h : Host} {α : Type} {p : C α} {t : List (Event sys)} {a : α} {m : AvShm} {id : UInt32}

@[simp] theorem sights_nil : sights [] = [] := rfl

@[simp] theorem sights_append (t t' : List (Event sys)) :
    sights (t ++ t') = sights t ++ sights t' := List.filterMap_append

theorem sights_cons (e : Event sys) (t : List (Event sys)) :
    sights (e :: t) = (sight e).toList ++ sights t := by
  rw [sights, List.filterMap_cons]
  cases sight e <;> rfl

/-! ## Parts without a sight -/

/-- The operations that show nothing. -/
def Unseen (o : Sys) : Prop := ∀ r, sight ⟨o, r⟩ = none

theorem run_unseen (hr : Run p t a) (hp : p.Only Unseen) : sights t = [] :=
  hr.seen_nil hp fun e he => he e.2

theorem HelperOp.unseen {o : Sys} (ho : HelperOp o) : Unseen o := by
  intro r
  cases o <;> first | exact ho.elim | rfl

theorem run_helper (hr : Run p t a) (hp : p.Only HelperOp) : sights t = [] :=
  run_unseen hr (hp.mono fun _ => HelperOp.unseen)

/-- An assertion that fails does not return. -/
theorem avAssert_run {b : Bool} {expr func : String} {u : Unit}
    (hr : Run (avAssert b expr func) t u) : b = true ∧ sights t = [] := by
  refine ⟨?_, run_helper hr (avAssert_helper ..)⟩
  unfold avAssert at hr
  split at hr
  · rename_i hb
    exact hb
  · obtain ⟨_, t₁, rfl, hr₁⟩ := hr.of_op
    obtain ⟨e, t₂, rfl, hr₂⟩ := hr₁.of_op
    exact e.elim

theorem avShmFree_run {m' : AvShm} (hr : Run (avShmFree h m) t m') : sights t = [] := by
  refine run_unseen hr ((avShmFree_only h m).mono fun o ho r => ?_)
  cases o <;> first | exact ho.elim | rfl

/-! ## Attaching -/

/-- The sights of an attach after it has opened its name, with its results. -/
inductive AttachSights (h : Host) : List Sight → Int × AvShm → Prop
  | unopened {m : AvShm} : AttachSights h [] (-1, m)
  | invalid {s : Nat} {m : AvShm} : invalidSize h s = true → AttachSights h [.size s] (-1, m)
  | unmapped {s : Nat} {e : Errno} {m : AvShm} :
      AttachSights h [.size s, .mapped (.error e)] (-1, m)
  | attached {s ptr : Nat} {m : AvShm} : invalidSize h s = false → m.size = s → m.ptr = ptr →
      AttachSights h [.size s, .mapped (.ok ptr)] (0, m)

/-- A failing attach shows nothing more. -/
theorem avShmAttachFail_run {l : LogLevel} {f : String} {args : List LogArg} {fd : Int}
    {r : Int × AvShm} {v : List Sight} (hv : AttachSights h v (-1, m))
    (hr : Run (call (.log l f args) >>= fun _ => avShmAttachFail fd m) t r) :
    r.2.id = m.id ∧ AttachSights h (v ++ sights t) r := by
  obtain ⟨_, t₁, rfl, hr₁⟩ := hr.of_op
  obtain ⟨_, t₂, t₃, rfl, hclose, hret⟩ := hr₁.of_bind
  obtain ⟨rfl, rfl⟩ := hret.of_pure
  have hsights := run_helper hclose (avClose_helper fd)
  refine ⟨rfl, ?_⟩
  have hlog : sights (⟨.log l f args, ()⟩ :: (t₂ ++ [])) = [] := by
    rw [sights_cons, sights_append, hsights]
    rfl
  rw [hlog, List.append_nil]
  exact hv

/-- An attach opens the name of its id, and the handle has the size that fstat has told and the
    place that mmap has given. -/
theorem avShmAttachRo_run {r : Int × AvShm} (hr : Run (avShmAttachRo h m id) t r) :
    r.2.id = id ∧ ∃ v, sights t = .attached (segmentName 32 id) :: v ∧
    AttachSights h v r := by
  obtain ⟨ro, t₁, rfl, hr₁⟩ := hr.of_op
  suffices hrest : r.2.id = id ∧ AttachSights h (sights t₁) r by
    exact ⟨hrest.1, sights t₁, rfl, hrest.2⟩
  cases ro with
  | error e =>
    dsimp only at hr₁
    split at hr₁
    · obtain ⟨_, t₂, rfl, hr₂⟩ := hr₁.of_op
      obtain ⟨rfl, rfl⟩ := hr₂.of_pure
      exact ⟨rfl, .unopened⟩
    · obtain ⟨rfl, rfl⟩ := hr₁.of_pure
      exact ⟨rfl, .unopened⟩
  | ok fd =>
    obtain ⟨rs, t₂, rfl, hr₂⟩ := hr₁.of_op
    cases rs with
    | error e => exact avShmAttachFail_run .unopened hr₂
    | ok s =>
      dsimp only at hr₂
      split at hr₂
      · rename_i hinv
        exact avShmAttachFail_run (.invalid hinv) hr₂
      · rename_i hinv
        have hvalid : invalidSize h s = false := Bool.eq_false_iff.2 hinv
        obtain ⟨rm, t₃, rfl, hr₃⟩ := hr₂.of_op
        cases rm with
        | error e => exact avShmAttachFail_run .unmapped hr₃
        | ok ptr =>
          obtain ⟨rc, t₄, t₅, rfl, hclose, hr₄⟩ := hr₃.of_bind
          obtain ⟨_, t₆, t₇, rfl, hassert, hret⟩ := hr₄.of_bind
          obtain ⟨rfl, rfl⟩ := hret.of_pure
          have hsights : sights (t₄ ++ (t₆ ++ [])) = [] := by
            rw [sights_append, sights_append, run_helper hclose (avClose_helper fd),
              (avAssert_run hassert).2]
            rfl
          -- the cast to size_t keeps what has passed the tests
          have hsize : s % h.sizeMod = s := mod_sizeMod hvalid
          refine ⟨rfl, ?_⟩
          rw [sights_cons, sights_cons, hsights]
          exact .attached hvalid hsize rfl

/-! ## The cleanup -/

theorem avShmCleanupRemove_run {seg : AvShm} {u : Unit}
    (hr : Run (avShmCleanupRemove h id seg) t u) : sights t = [] := by
  obtain ⟨_, t₁, t₂, rfl, hfree, hr₁⟩ := hr.of_bind
  obtain ⟨r, t₃, rfl, hr₂⟩ := hr₁.of_op
  rw [sights_append, avShmFree_run hfree, sights_cons]
  cases r with
  | ok _ =>
    obtain ⟨rfl, -⟩ := hr₂.of_pure
    rfl
  | error e =>
    dsimp only at hr₂
    split at hr₂
    · rw [hr₂.of_last]
      rfl
    · obtain ⟨rfl, -⟩ := hr₂.of_pure
      rfl

/-- The sights of the cleanup of an attached segment: the marker where it has to be, and then
    the pid behind it. -/
inductive SegSights (h : Host) (seg : AvShm) : List Sight → Prop
  | short : seg.size < shmMarkerSize h → SegSights h seg []
  | marker : SegSights h seg [.load (markerAddr h seg.ptr seg.size)]
  | pid : SegSights h seg [.load (markerAddr h seg.ptr seg.size),
      .load (markerAddr h seg.ptr seg.size + shmMarkerPid)]

theorem avShmCleanupSeg_run {seg : AvShm} {u : Unit} (hr : Run (avShmCleanupSeg h id seg) t u) :
    SegSights h seg (sights t) := by
  have hdone : ∀ {t u}, Run (avShmFree h seg >>= fun _ => pure ()) t u → sights t = [] := by
    intro t u hr
    obtain ⟨m', t₁, t₂, rfl, hfree, hret⟩ := hr.of_bind
    obtain ⟨rfl, rfl⟩ := hret.of_pure
    rw [List.append_nil]
    exact avShmFree_run hfree
  unfold avShmCleanupSeg at hr
  split at hr
  · rename_i hshort
    rw [hdone hr]
    exact .short hshort
  · obtain ⟨marker, t₁, rfl, hr₁⟩ := Run.of_op hr
    split at hr₁
    · rw [sights_cons, hdone hr₁]
      exact .marker
    · obtain ⟨pid, t₂, rfl, hr₂⟩ := hr₁.of_op
      split at hr₂
      · rw [sights_cons, sights_cons, hdone hr₂]
        exact .pid
      · obtain ⟨r, t₃, rfl, hr₃⟩ := hr₂.of_op
        suffices hrest : sights t₃ = [] by
          rw [sights_cons, sights_cons, sights_cons, hrest]
          exact .pid
        split at hr₃
        · exact hdone hr₃
        · -- the owner is dead
          exact avShmCleanupRemove_run hr₃

/-- The cleanup of an entry opens the name of the id it has read, and looks for the marker of
    the segment that it has attached. -/
theorem avShmCleanupEntry_run {e : CStr} {u : Unit} (hid : entryId h e = some id)
    (hr : Run (avShmCleanupEntry h e) t u) :
    ∃ seg r v v', sights t = .attached (segmentName 32 id) :: (v ++ v') ∧
      AttachSights h v (r, seg) ∧ (r = 0 → SegSights h seg v') ∧ (r ≠ 0 → v' = []) := by
  unfold avShmCleanupEntry at hr
  rw [hid] at hr
  obtain ⟨⟨r, seg⟩, t₁, t₂, rfl, hattach, hr₁⟩ := Run.of_bind hr
  obtain ⟨-, v, ht₁, hv⟩ := avShmAttachRo_run hattach
  refine ⟨seg, r, v, sights t₂, ?_, hv, ?_, ?_⟩
  · rw [sights_append, ht₁]
    rfl
  · rintro rfl
    exact avShmCleanupSeg_run hr₁
  · intro hr0
    have hneg : r = -1 := by
      cases hv with
      | attached => exact absurd rfl hr0
      | _ => rfl
    subst hneg
    obtain ⟨rfl, -⟩ := hr₁.of_pure
    rfl

/-- What a cleanup may show: it makes nothing and stores nothing. -/
def Sight.Passive : Sight → Prop
  | .made _ | .store _ _ => False
  | _ => True

theorem run_passive (hr : Run p t a) (hp : p.Only CleanupOp) : ∀ s ∈ sights t, s.Passive := by
  intro s hs
  obtain ⟨⟨o, r⟩, he, hsight⟩ := List.mem_filterMap.1 hs
  -- a store or a new segment would be an operation that no cleanup has
  have ho : CleanupOp o := hr.only hp _ he
  cases o with
  | shmOpen name flags mode => obtain rfl : flags = .rdonly := ho; cases hsight; trivial
  | readdir d =>
    cases r with
    | none => cases hsight
    | some e => cases hsight; trivial
  | fstat fd =>
    cases r with
    | error e => cases hsight
    | ok s => cases hsight; trivial
  | mmap l w f => cases hsight; trivial
  | atomicLoad a => cases hsight; trivial
  | _ => first | exact ho.elim | cases hsight

/-- Every entry that is listed and read as an id is opened under the name of that id. -/
def Follows (h : Host) (v : List Sight) : Prop :=
  ∀ e id, .listed e ∈ v → entryId h e = some id → .attached (segmentName 32 id) ∈ v

theorem Follows.append {v v' : List Sight} (hv : Follows h v) (hv' : Follows h v') :
    Follows h (v ++ v') := by
  intro e id hl hid
  rw [List.mem_append] at hl ⊢
  obtain hl | hl := hl
  · exact .inl (hv e id hl hid)
  · exact .inr (hv' e id hl hid)

/-- One round of the cleanup: an entry, and what is done about it. -/
theorem avShmCleanupEntry_follows {e : CStr} {u : Unit} (hr : Run (avShmCleanupEntry h e) t u) :
    Follows h (.listed e :: sights t) := by
  intro e' id hl hid
  cases hentry : entryId h e with
  | none =>
    unfold avShmCleanupEntry at hr
    rw [hentry] at hr
    obtain ⟨rfl, -⟩ := Run.of_pure hr
    obtain rfl : e' = e := by simpa using hl
    rw [hentry] at hid
    cases hid
  | some id' =>
    obtain ⟨seg, r, v, v', ht, hv, hseg, hrest⟩ := avShmCleanupEntry_run hentry hr
    -- only the loop lists entries
    have hno : .listed e' ∉ v ++ v' := by
      rw [List.mem_append, not_or]
      constructor
      · cases hv <;> simp
      · by_cases hr0 : r = 0
        · cases hseg hr0 <;> simp
        · rw [hrest hr0]
          simp
    rw [ht] at hl ⊢
    obtain rfl : e' = e := by simpa [hno] using hl
    rw [hentry, Option.some.injEq] at hid
    subst hid
    simp

/-- A cleanup opens the segment of every entry it lists. -/
theorem avShmCleanup_run {r : Int} (hr : Run (avShmCleanup h) t r) : Follows h (sights t) := by
  have hnil : Follows h [] := fun e id hl => by cases hl
  obtain ⟨d, t₁, rfl, hr₁⟩ := hr.of_op
  cases d with
  | error e =>
    obtain ⟨_, t₂, rfl, hr₂⟩ := hr₁.of_op
    obtain ⟨rfl, -⟩ := hr₂.of_pure
    exact hnil
  | ok d =>
    obtain ⟨_, t₂, t₃, rfl, hloop, hr₂⟩ := hr₁.of_bind
    obtain ⟨_, t₄, rfl, hret⟩ := hr₂.of_op
    obtain ⟨rfl, -⟩ := hret.of_pure
    -- the invariant of the loop: what has been listed so far has been opened
    have hrounds : Follows h (sights t₂) := by
      refine Run.of_iter (I := fun _ t => Follows h (sights t))
        (Q := fun _ t => Follows h (sights t)) (fun _ t c t' hI hbody => ?_) hnil hloop
      obtain ⟨re, t₅, rfl, hbody₁⟩ := Run.of_op hbody
      cases re with
      | none =>
        obtain ⟨rfl, rfl⟩ := hbody₁.of_pure
        change Follows h (sights _)
        rw [sights_append]
        exact hI.append hnil
      | some e =>
        obtain ⟨_, t₆, t₇, rfl, hentry, hret⟩ := hbody₁.of_bind
        obtain ⟨rfl, rfl⟩ := hret.of_pure
        change Follows h (sights _)
        rw [sights_append, List.append_nil]
        exact hI.append (avShmCleanupEntry_follows hentry)
    rw [sights_cons, sights_append]
    exact hnil.append (hrounds.append hnil)

/-! ## Creating -/

/-- The sights of a create after its cleanup, with its results. -/
inductive CreateSights (h : Host) (size : Nat) (shared : Int) : List Sight → Int × AvShm → Prop
  | unmapped {e : Errno} {m : AvShm} : shared = 0 →
      CreateSights h size shared [.mapped (.error e)] (-1, m)
  | anonymous {ptr : Nat} {m : AvShm} : shared = 0 → m.size = avPageAlign h size →
      m.ptr = ptr → CreateSights h size shared [.mapped (.ok ptr)] (0, m)
  | failed {name : CStr} {v : List Sight} {m : AvShm} : shared ≠ 0 →
      name = segmentName 32 m.id → v = [] ∨ (∃ e, v = [.mapped (.error e)]) →
      CreateSights h size shared (.made name :: v) (-1, m)
  | made {name : CStr} {ptr a : Nat} {pid : UInt32} {m : AvShm} : shared ≠ 0 →
      name = segmentName 32 m.id → m.ptr = ptr → m.size = segSize h size →
      a = markerAddr h ptr (segSize h size) →
      CreateSights h size shared [.made name, .mapped (.ok ptr),
        .store (a + shmMarkerPid) pid, .store a shmMarker] (0, m)

/-- A failing create shows nothing more. -/
theorem avShmCreateFail_run {l : LogLevel} {f : String} {args : List LogArg} {fd : Int}
    {fn : CStr} {r : Int × AvShm}
    (hr : Run (call (.log l f args) >>= fun _ => avShmCreateFail fd fn m) t r) :
    r = (-1, m) ∧ sights t = [] := by
  obtain ⟨_, t₁, rfl, hr₁⟩ := hr.of_op
  unfold avShmCreateFail at hr₁
  split at hr₁
  · obtain ⟨_, t₂, rfl, hr₂⟩ := hr₁.of_op
    obtain ⟨_, t₃, t₄, rfl, hclose, hret⟩ := hr₂.of_bind
    obtain ⟨rfl, rfl⟩ := hret.of_pure
    refine ⟨rfl, ?_⟩
    rw [sights_cons, sights_cons, sights_append, run_helper hclose (avClose_helper fd)]
    rfl
  · obtain ⟨rfl, rfl⟩ := hr₁.of_pure
    exact ⟨rfl, rfl⟩

theorem avShmCreatePrivate_run {size : Nat} {r : Int × AvShm}
    (hr : Run (avShmCreatePrivate h m (avPageAlign h size) 0) t r) :
    CreateSights h size 0 (sights t) r := by
  obtain ⟨rm, t₁, rfl, hr₁⟩ := hr.of_op
  cases rm with
  | error e =>
    obtain ⟨rfl, ht⟩ := avShmCreateFail_run hr₁
    rw [sights_cons, ht]
    exact .unmapped rfl
  | ok ptr =>
    obtain ⟨rfl, rfl⟩ := hr₁.of_pure
    exact .anonymous rfl rfl rfl

/-- A shared create names its segment after the id in the handle, and stores the pid and the
    marker where the handle has its end. -/
theorem avShmCreateShared_run {idp size mode : Nat} {shared : Int} {r : Int × AvShm}
    (hs : shared ≠ 0)
    (hr : Run (avShmCreateShared h idp m (avPageAlign h size) shared mode) t r) :
    CreateSights h size shared (sights t) r := by
  obtain ⟨_, t₁, t₂, rfl, hrandom, hr₁⟩ := hr.of_bind
  rw [sights_append, run_helper hrandom (avRandom_helper ..), List.nil_append]
  obtain ⟨id, t₃, rfl, hr₂⟩ := hr₁.of_op
  obtain ⟨ro, t₄, rfl, hr₃⟩ := hr₂.of_op
  rw [sights_cons, sights_cons]
  cases ro with
  | error e =>
    obtain ⟨rfl, ht⟩ := avShmCreateFail_run hr₃
    rw [ht]
    exact .failed hs rfl (.inl rfl)
  | ok fd =>
    obtain ⟨rt, t₅, rfl, hr₄⟩ := Run.of_op hr₃
    rw [sights_cons]
    cases rt with
    | error e =>
      obtain ⟨rfl, ht⟩ := avShmCreateFail_run hr₄
      rw [ht]
      exact .failed hs rfl (.inl rfl)
    | ok _ =>
      obtain ⟨rm, t₆, rfl, hr₅⟩ := hr₄.of_op
      rw [sights_cons]
      cases rm with
      | error e =>
        obtain ⟨rfl, ht⟩ := avShmCreateFail_run hr₅
        rw [ht]
        exact .failed hs rfl (.inr ⟨e, rfl⟩)
      | ok ptr =>
        -- getpid, the two stores, the close and its assertion
        obtain ⟨pid, t₇, rfl, hr₆⟩ := Run.of_op hr₅
        obtain ⟨_, t₈, rfl, hr₇⟩ := hr₆.of_op
        obtain ⟨_, t₉, rfl, hr₈⟩ := hr₇.of_op
        obtain ⟨rc, t₁₀, t₁₁, rfl, hclose, hr₉⟩ := hr₈.of_bind
        obtain ⟨_, t₁₂, t₁₃, rfl, hassert, hret⟩ := hr₉.of_bind
        obtain ⟨rfl, rfl⟩ := hret.of_pure
        rw [sights_cons, sights_cons, sights_cons, sights_append, sights_append,
          run_helper hclose (avClose_helper fd), (avAssert_run hassert).2]
        exact .made hs rfl rfl rfl rfl

/-- A create shows what its cleanup shows, and then what it makes. -/
theorem avShmCreateRw_run {idp size mode : Nat} {shared : Int} {r : Int × AvShm}
    (hr : Run (avShmCreateRw h idp m size shared mode) t r) :
    ∃ v v', sights t = v ++ v' ∧ (∀ s ∈ v, s.Passive) ∧
      CreateSights h size shared v' r := by
  obtain ⟨_, t₁, t₂, rfl, ha₁, hr₁⟩ := hr.of_bind
  obtain ⟨_, t₃, t₄, rfl, ha₂, hr₂⟩ := hr₁.of_bind
  obtain ⟨_, t₅, t₆, rfl, ha₃, hr₃⟩ := hr₂.of_bind
  obtain ⟨_, t₇, t₈, rfl, hclean, hr₄⟩ := hr₃.of_bind
  refine ⟨sights t₇, sights t₈, ?_, run_passive hclean (avShmCleanup_only h), ?_⟩
  · rw [sights_append, sights_append, sights_append, sights_append, (avAssert_run ha₁).2,
      (avAssert_run ha₂).2, (avAssert_run ha₃).2]
    rfl
  · dsimp only at hr₄
    split at hr₄
    · rename_i hs
      subst hs
      exact avShmCreatePrivate_run hr₄
    · rename_i hs
      exact avShmCreateShared_run hs hr₄

end AnekVideo
