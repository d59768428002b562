/-
  AnekVideo.Interact.System

  Many clients of one library over one shared state.

  A `System` says which calls clients may make, which program each call runs
  and what every operation may do to the shared state; whatever the state
  leaves open (an outcome, a fresh number, an order) is settled by a `Choice`.
  A `Config` is the shared state and one thread per client.  `System.step`
  executes one labelled step: a client makes a call, one thread performs one
  operation, a call returns, a client dies or is born.  Runs interleave these
  in any order.

  `Protocol` is the rely-guarantee proof obligation for such a system; its
  theorems say that every step of every run keeps its promise and that every
  idle client is in its own assertion.
-/
import AnekVideo.Interact.Triple

namespace Interact

/-- Clients of a library over the shared state `K`. -/
structure System (E : Iface) (K : Type) where
  /-- Settles what an operation leaves open. -/
  Choice : Type
  /-- The calls of the library, their results and what a client remembers. -/
  Call : Type
  Ret : Type
  St : Type
  /-- What is settled at the birth of a client. -/
  Birth : Type
  exec : Choice → Nat → (o : E.Op) → K → Option (E.Resp o × K)
  body : Call → Prog E Ret
  enabled : Nat → St → Call → Bool
  /-- History variables: what the start and the end of a call record. -/
  enter : Nat → Call → K → K
  leave : Nat → Call → Ret → K → K
  after : Nat → St → Call → Ret → St
  die : Nat → K → K
  spawn : Birth → Nat → K → Option (St × K)

namespace System

variable {E : Iface} {K : Type} (S : System E K)

/-- One client: not there, between two calls, or inside one. -/
inductive Thread
  | none
  | idle (s : S.St)
  | busy (s : S.St) (c : S.Call) (p : Prog E S.Ret)

structure Config where
  k : K
  th : Nat → S.Thread

inductive Label
  | start (t : Nat) (c : S.Call)
  | op (t : Nat) (ch : S.Choice)
  | spin (t : Nat)
  | finish (t : Nat)
  | die (t : Nat)
  | spawn (t : Nat) (b : S.Birth)

variable {S}

/-- The configuration after thread `t` became `th` and the state `k`. -/
def Config.put (c : S.Config) (t : Nat) (th : S.Thread) (k : K) : S.Config :=
  ⟨k, Function.update c.th t th⟩

@[simp] theorem Config.put_k (c : S.Config) (t : Nat) (th : S.Thread) (k : K) :
    (c.put t th k).k = k := rfl

@[simp] theorem Config.put_th_self (c : S.Config) (t : Nat) (th : S.Thread) (k : K) :
    (c.put t th k).th t = th := Function.update_self ..

theorem Config.put_th_ne (c : S.Config) {s t : Nat} (th : S.Thread) (k : K) (h : s ≠ t) :
    (c.put t th k).th s = c.th s := Function.update_of_ne h ..

/-- One labelled step, `none` where the label does not apply. -/
def step (c : S.Config) : S.Label → Option S.Config
  | .start t call =>
    match c.th t with
    | .idle s =>
      if S.enabled t s call then
        some (c.put t (.busy s call (S.body call)) (S.enter t call c.k))
      else none
    | _ => none
  | .op t ch =>
    match c.th t with
    | .busy s call p =>
      match p.head with
      | .call o f =>
        match S.exec ch t o c.k with
        | some (r, k') => some (c.put t (.busy s call (f r)) k')
        | none => none
      | _ => none
    | _ => none
  | .spin t =>
    match c.th t with
    | .busy s call p =>
      match p.head with
      | .spin p' => some (c.put t (.busy s call p') c.k)
      | _ => none
    | _ => none
  | .finish t =>
    match c.th t with
    | .busy s call p =>
      match p.head with
      | .ret r => some (c.put t (.idle (S.after t s call r)) (S.leave t call r c.k))
      | _ => none
    | _ => none
  | .die t =>
    match c.th t with
    | .none => none
    | _ => some (c.put t .none (S.die t c.k))
  | .spawn t b =>
    match c.th t with
    | .none =>
      match S.spawn b t c.k with
      | some (s, k') => some (c.put t (.idle s) k')
      | none => none
    | _ => none

/-- Several steps in a row, each of which has to pass a check. -/
def steps (ok : S.Config → S.Label → Bool) (c : S.Config) : List S.Label → Option S.Config
  | [] => some c
  | l :: ls =>
    if ok c l then
      match step c l with
      | some c' => steps ok c' ls
      | none => none
    else none

/-- Thread `t` is about to perform `o`. -/
def Issues (c : S.Config) (t : Nat) (o : E.Op) : Prop :=
  ∃ s call p f, c.th t = .busy s call p ∧ p.head = .call o f

/-! ## What a step can do -/

variable {c c' : S.Config}

theorem step_start {t : Nat} {call : S.Call} (h : step c (.start t call) = some c') :
    ∃ s, c.th t = .idle s ∧ S.enabled t s call = true ∧
      c' = c.put t (.busy s call (S.body call)) (S.enter t call c.k) := by
  simp only [step] at h
  split at h
  · rename_i s hs
    split at h
    · rename_i he
      exact ⟨s, hs, he, (Option.some.inj h).symm⟩
    · cases h
  · cases h

theorem step_op {t : Nat} {ch : S.Choice} (h : step c (.op t ch) = some c') :
    ∃ s call p o f r k', c.th t = .busy s call p ∧ p.head = .call o f ∧
      S.exec ch t o c.k = some (r, k') ∧ c' = c.put t (.busy s call (f r)) k' := by
  simp only [step] at h
  split at h
  · rename_i s call p hs
    split at h
    · rename_i o f hp
      split at h
      · rename_i r k' he
        exact ⟨s, call, p, o, f, r, k', hs, hp, he, (Option.some.inj h).symm⟩
      · cases h
    · cases h
  · cases h

theorem step_spin {t : Nat} (h : step c (.spin t) = some c') :
    ∃ s call p p', c.th t = .busy s call p ∧ p.head = .spin p' ∧
      c' = c.put t (.busy s call p') c.k := by
  simp only [step] at h
  split at h
  · rename_i s call p hs
    split at h
    · rename_i p' hp
      exact ⟨s, call, p, p', hs, hp, (Option.some.inj h).symm⟩
    · cases h
  · cases h

theorem step_finish {t : Nat} (h : step c (.finish t) = some c') :
    ∃ s call p r, c.th t = .busy s call p ∧ p.head = .ret r ∧
      c' = c.put t (.idle (S.after t s call r)) (S.leave t call r c.k) := by
  simp only [step] at h
  split at h
  · rename_i s call p hs
    split at h
    · rename_i r hp
      exact ⟨s, call, p, r, hs, hp, (Option.some.inj h).symm⟩
    · cases h
  · cases h

theorem step_die {t : Nat} (h : step c (.die t) = some c') :
    c.th t ≠ .none ∧ c' = c.put t .none (S.die t c.k) := by
  simp only [step] at h
  split at h
  · cases h
  · rename_i hs
    exact ⟨hs, (Option.some.inj h).symm⟩

theorem step_spawn {t : Nat} {b : S.Birth} (h : step c (.spawn t b) = some c') :
    ∃ s k', c.th t = .none ∧ S.spawn b t c.k = some (s, k') ∧ c' = c.put t (.idle s) k' := by
  simp only [step] at h
  split at h
  · rename_i hs
    split at h
    · rename_i s k' hb
      exact ⟨s, k', hs, hb, (Option.some.inj h).symm⟩
    · cases h
  · cases h

/-! ## Runs under a policy -/

variable (S)

/-- Which steps a family of runs is made of: which outcomes of which operations,
    and which of the other labels. -/
structure Policy where
  op : Nat → S.Choice → E.Op → K → Prop
  other : S.Label → Prop

/-- Every step. -/
def Policy.free : Policy S := ⟨fun _ _ _ _ => True, fun _ => True⟩

variable {S}

/-- The policy lets the step labelled `l` happen in `c`. -/
def Policy.Allows (pol : Policy S) (c : S.Config) : S.Label → Prop
  | .op t ch => ∀ s call p o f, c.th t = .busy s call p → p.head = .call o f →
      pol.op t ch o c.k
  | l => pol.other l

/-- `c` can be reached from `c₀` by steps the policy allows. -/
inductive Reach (pol : Policy S) (c₀ : S.Config) : S.Config → Prop
  | refl : Reach pol c₀ c₀
  | step {c c' : S.Config} {l : S.Label} :
      Reach pol c₀ c → pol.Allows c l → step c l = some c' → Reach pol c₀ c'

theorem Reach.trans {pol : Policy S} {c₀ c₁ c₂ : S.Config} (h : Reach pol c₀ c₁)
    (h' : Reach pol c₁ c₂) : Reach pol c₀ c₂ := by
  induction h' with
  | refl => exact h
  | step _ hok hs ih => exact .step ih hok hs

theorem Reach.mono {pol pol' : Policy S} {c₀ c : S.Config} (h : Reach pol c₀ c)
    (hpol : ∀ c l, pol.Allows c l → pol'.Allows c l) : Reach pol' c₀ c := by
  induction h with
  | refl => exact .refl
  | step _ hok hs ih => exact .step ih (hpol _ _ hok) hs

theorem Policy.allows_free (c : S.Config) (l : S.Label) : (Policy.free S).Allows c l := by
  cases l <;> simp [Policy.Allows, Policy.free]

/-- Executed steps are a run. -/
theorem reach_of_steps {pol : Policy S} {ok : S.Config → S.Label → Bool} {c₀ c : S.Config}
    {ls : List S.Label} (hok : ∀ c l, ok c l = true → pol.Allows c l)
    (h : steps ok c₀ ls = some c) : Reach pol c₀ c := by
  induction ls generalizing c₀ with
  | nil => cases h; exact .refl
  | cons l ls ih =>
    simp only [steps] at h
    split at h
    · rename_i hl
      split at h
      · rename_i c₁ hc
        exact (Reach.step .refl (hok c₀ l hl) hc).trans (ih h)
      · cases h
    · cases h

/-- What the operations of thread `t` may do under a policy. -/
def semOf (pol : Policy S) (t : Nat) : OpSem E K :=
  fun o k r k' => ∃ ch, pol.op t ch o k ∧ S.exec ch t o k = some (r, k')

/-! ## Rely-guarantee proofs about systems -/

/-- The obligations of a rely-guarantee proof for the runs of a policy. -/
structure Protocol (pol : Policy S) where
  rely : Nat → K → K → Prop
  guar : Nat → OpSem E K
  rely_refl : ∀ t k, rely t k k
  rely_trans : ∀ {t k₁ k₂ k₃}, rely t k₁ k₂ → rely t k₂ k₃ → rely t k₁ k₃
  /-- Holds in every state of every run. -/
  inv : K → Prop
  /-- Holds of an idle client. -/
  idle : Nat → S.St → K → Prop
  guar_rely : ∀ {s t o k r k'}, s ≠ t → guar s o k r k' → rely t k k'
  guar_inv : ∀ {t o k r k'}, guar t o k r k' → inv k'
  idle_stable : ∀ {t s k k'}, inv k → rely t k k' → idle t s k → idle t s k'
  enter_inv : ∀ {t s c k}, inv k → idle t s k → S.enabled t s c = true → inv (S.enter t c k)
  enter_rely : ∀ {t u s c k}, t ≠ u → inv k → idle t s k → S.enabled t s c = true →
    rely u k (S.enter t c k)
  leave_inv : ∀ {t s c r k}, inv k → idle t (S.after t s c r) (S.leave t c r k) →
    inv (S.leave t c r k)
  leave_rely : ∀ {t u s c r k}, t ≠ u → inv k →
    idle t (S.after t s c r) (S.leave t c r k) → rely u k (S.leave t c r k)
  die_inv : ∀ {t k}, inv k → inv (S.die t k)
  die_rely : ∀ {t u k}, t ≠ u → inv k → rely u k (S.die t k)
  spawn_inv : ∀ {b t k s k'}, inv k → S.spawn b t k = some (s, k') → inv k'
  spawn_rely : ∀ {b t u k s k'}, t ≠ u → inv k → S.spawn b t k = some (s, k') →
    rely u k k'
  spawn_idle : ∀ {b t k s k'}, inv k → S.spawn b t k = some (s, k') → idle t s k'

namespace Protocol

variable {pol : Policy S} (pr : Protocol pol)

/-- What thread `t` sees of the others. -/
def env (t : Nat) : Env E K where
  sem := semOf pol t
  rely := pr.rely t
  guar := pr.guar t
  rely_refl := pr.rely_refl t
  rely_trans := pr.rely_trans

/-- The state in which the body of a call starts. -/
def Pre (t : Nat) (s : S.St) (c : S.Call) (k : K) : Prop :=
  ∃ k₀, pr.inv k₀ ∧ pr.idle t s k₀ ∧ k = S.enter t c k₀

/-- The state in which the body of a call has to return. -/
def Post (t : Nat) (s : S.St) (c : S.Call) (r : S.Ret) (k : K) : Prop :=
  pr.idle t (S.after t s c r) (S.leave t c r k)

/-- Every call of the library keeps the protocol. -/
def Verified : Prop :=
  ∀ t s c, S.enabled t s c = true → (pr.env t).Triple (pr.Pre t s c) (S.body c) (pr.Post t s c)

/-- What holds of thread `t` in a configuration. -/
def ThreadOk (t : Nat) (k : K) : S.Thread → Prop
  | .none => True
  | .idle s => pr.idle t s k
  | .busy s c p => ∀ n, (pr.env t).Safe n k p (pr.Post t s c)

/-- The invariant of the interleaved system. -/
def Ok (c : S.Config) : Prop := pr.inv c.k ∧ ∀ t, pr.ThreadOk t c.k (c.th t)

variable {pr}

theorem ThreadOk.rely {t : Nat} {k k' : K} {th : S.Thread} (hi : pr.inv k)
    (h : pr.ThreadOk t k th) (hr : pr.rely t k k') : pr.ThreadOk t k' th := by
  cases th with
  | none => trivial
  | idle s => exact pr.idle_stable hi hr h
  | busy s c p => exact fun n => (h n).rely hr

/-- A move of thread `t` keeps the system in order if it keeps `t` in order and
    the others can rely on it. -/
theorem Ok.put {t : Nat} {th : S.Thread} {k' : K} (h : pr.Ok c) (hi : pr.inv k')
    (ht : pr.ThreadOk t k' th) (hr : ∀ u, t ≠ u → pr.rely u c.k k') :
    pr.Ok (c.put t th k') := by
  refine ⟨hi, fun u => ?_⟩
  by_cases hu : u = t
  · subst hu
    rw [Config.put_th_self]
    exact ht
  · rw [Config.put_th_ne _ _ _ hu]
    exact (h.2 u).rely h.1 (hr u (Ne.symm hu))

/-- An operation of a run keeps its promise, and its thread stays safe. -/
theorem Ok.op {t : Nat} {ch : S.Choice} {s : S.St} {call : S.Call} {p : Prog E S.Ret} {o : E.Op}
    {f : E.Resp o → Prog E S.Ret} {r : E.Resp o} {k' : K} (h : pr.Ok c)
    (hok : pol.Allows c (.op t ch)) (hs : c.th t = .busy s call p) (hp : p.head = .call o f)
    (he : S.exec ch t o c.k = some (r, k')) :
    pr.guar t o c.k r k' ∧ ∀ n, (pr.env t).Safe n k' (f r) (pr.Post t s call) := by
  have hth : pr.ThreadOk t c.k (.busy s call p) := hs ▸ h.2 t
  have hsem : semOf pol t o c.k r k' := ⟨ch, hok s call p o f hs hp, he⟩
  have hn : ∀ n, pr.guar t o c.k r k' ∧ (pr.env t).Safe n k' (f r) (pr.Post t s call) := by
    intro n
    have := hth (n + 1) c.k (pr.rely_refl t c.k)
    rw [hp] at this
    exact this r k' hsem
  exact ⟨(hn 0).1, fun n => (hn n).2⟩

/-- The promise of the operation a thread is about to perform. -/
theorem Ok.guar {t : Nat} {ch : S.Choice} {o : E.Op} (h : pr.Ok c)
    (hok : pol.Allows c (.op t ch)) (hi : Issues c t o) (hs : System.step c (.op t ch) = some c') :
    ∃ r, pr.guar t o c.k r c'.k := by
  obtain ⟨s, call, p, o', f, r, k', hth, hp, he, rfl⟩ := step_op hs
  obtain ⟨s', call', p', f', hth', hp'⟩ := hi
  rw [hth] at hth'
  cases hth'
  rw [hp] at hp'
  cases hp'
  exact ⟨r, (h.op hok hth hp he).1⟩

/-- Every step of a run keeps the system in order. -/
theorem Ok.step (hv : pr.Verified) {l : S.Label} (h : pr.Ok c) (hok : pol.Allows c l)
    (hs : System.step c l = some c') : pr.Ok c' := by
  cases l with
  | start t call =>
    obtain ⟨s, ht, he, rfl⟩ := step_start hs
    have hidle : pr.idle t s c.k := by have := h.2 t; rwa [ht] at this
    exact h.put (pr.enter_inv h.1 hidle he)
      (fun n => hv t s call he n _ ⟨c.k, h.1, hidle, rfl⟩)
      (fun u hu => pr.enter_rely hu h.1 hidle he)
  | op t ch =>
    obtain ⟨s, call, p, o, f, r, k', ht, hp, he, rfl⟩ := step_op hs
    obtain ⟨hg, hsafe⟩ := h.op hok ht hp he
    exact h.put (pr.guar_inv hg) hsafe fun u hu => pr.guar_rely hu hg
  | spin t =>
    obtain ⟨s, call, p, p', ht, hp, rfl⟩ := step_spin hs
    have hth : pr.ThreadOk t c.k (.busy s call p) := ht ▸ h.2 t
    refine h.put h.1 (fun n => ?_) fun u _ => pr.rely_refl u c.k
    -- to be safe for `n` moves more, look one move further
    have := hth (n + 1) c.k (pr.rely_refl t c.k)
    rwa [hp] at this
  | finish t =>
    obtain ⟨s, call, p, r, ht, hp, rfl⟩ := step_finish hs
    have hth : pr.ThreadOk t c.k (.busy s call p) := ht ▸ h.2 t
    have hpost := hth 1 c.k (pr.rely_refl t c.k)
    rw [hp] at hpost
    exact h.put (pr.leave_inv h.1 hpost) hpost fun u hu => pr.leave_rely hu h.1 hpost
  | die t =>
    obtain ⟨-, rfl⟩ := step_die hs
    exact h.put (pr.die_inv h.1) trivial fun u hu => pr.die_rely hu h.1
  | spawn t b =>
    obtain ⟨s, k', -, hb, rfl⟩ := step_spawn hs
    exact h.put (pr.spawn_inv h.1 hb) (pr.spawn_idle h.1 hb)
      fun u hu => pr.spawn_rely hu h.1 hb

/-- **Soundness.**  Every configuration of every run is in order. -/
theorem Ok.reach (hv : pr.Verified) {c₀ : S.Config} (h₀ : pr.Ok c₀) (hr : Reach pol c₀ c) :
    pr.Ok c := by
  induction hr with
  | refl => exact h₀
  | step _ hok hs ih => exact ih.step hv hok hs

end Protocol
end System
end Interact
