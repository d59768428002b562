/-
  AnekVideo.Interact.Progress

  Interleavings that have to end.

  `Inevitable F c` says that every maximal run from `c` is finite and passes
  through a configuration in `F`.  If every call of a system is `Bounded`,
  and what a client may still do is bounded by a budget, then finitely many
  clients inevitably come to rest, whatever the interleaving: every step
  takes one unit from the budget of one thread and none from the others.
-/
import AnekVideo.Interact.Bounded
import AnekVideo.Interact.System

namespace Interact
namespace System

variable {E : Iface} {K : Type} {S : System E K}

/-- Every maximal run from `c` is finite and meets `F`. -/
inductive Inevitable (pol : Policy S) (F : S.Config → Prop) : S.Config → Prop
  | now {c : S.Config} : F c → Inevitable pol F c
  | next {c : S.Config} :
      (∃ l c', pol.Allows c l ∧ step c l = some c') →
      (∀ l c', pol.Allows c l → step c l = some c' → Inevitable pol F c') →
      Inevitable pol F c

theorem Inevitable.mono {pol : Policy S} {F F' : S.Config → Prop} {c : S.Config}
    (h : Inevitable pol F c) (hF : ∀ c, F c → F' c) : Inevitable pol F' c := by
  induction h with
  | now h => exact .now (hF _ h)
  | next hex _ ih => exact .next hex ih

/-- What every allowed step preserves holds where the runs end up, too. -/
theorem Inevitable.keep {pol : Policy S} {F I : S.Config → Prop} {c : S.Config}
    (h : Inevitable pol F c) (hc : I c)
    (hI : ∀ c l c', I c → pol.Allows c l → step c l = some c' → I c') :
    Inevitable pol (fun c => F c ∧ I c) c := by
  induction h with
  | now h => exact .now ⟨h, hc⟩
  | next hex _ ih => exact .next hex fun l c' hok hs => ih l c' hok hs (hI _ l c' hc hok hs)

namespace Protocol

variable {pol : Policy S} (pr : Protocol pol)

/-- Every call of a client in `s` returns within `cost s c` moves and leaves the
    client a smaller budget. -/
structure Countdown where
  budget : S.St → Nat
  cost : S.St → S.Call → Nat
  bounded : ∀ t s c, S.enabled t s c = true →
    (pr.env t).Bounded (cost s c) (pr.Pre t s c) (S.body c) fun r k =>
      pr.Post t s c r k ∧ cost s c + 2 + budget (S.after t s c r) ≤ budget s
  start : ∀ t c, pol.other (.start t c)
  spin : ∀ t, pol.other (.spin t)
  finish : ∀ t, pol.other (.finish t)
  die : ∀ t, ¬ pol.other (.die t)
  spawn : ∀ t b, ¬ pol.other (.spawn t b)

/-- A configuration at rest: no client is inside a call or may make one. -/
def AtRest (c : S.Config) : Prop :=
  pr.inv c.k ∧ ∀ t,
    match c.th t with
    | .none => True
    | .idle s => pr.idle t s c.k ∧ ∀ call, S.enabled t s call = false
    | .busy _ _ _ => False

namespace Countdown

variable {pr} (cd : pr.Countdown)

/-- Thread `t` is in order and makes at most `m` more moves. -/
def Left (t : Nat) (k : K) (m : Nat) : S.Thread → Prop
  | .none => True
  | .idle s => pr.idle t s k ∧ cd.budget s ≤ m
  | .busy s c p => ∃ n d, n + d ≤ m ∧ (pr.env t).Within n k p fun r k =>
      pr.Post t s c r k ∧ cd.budget (S.after t s c r) + 1 ≤ d

variable {cd}

theorem Left.rely {t : Nat} {k k' : K} {m : Nat} {th : S.Thread} (hi : pr.inv k)
    (h : cd.Left t k m th) (hr : pr.rely t k k') : cd.Left t k' m th := by
  cases th with
  | none => trivial
  | idle s => exact ⟨pr.idle_stable hi hr h.1, h.2⟩
  | busy s c p =>
    obtain ⟨n, d, hnd, hw⟩ := h
    exact ⟨n, d, hnd, hw.rely hr⟩

/-- The invariant of an interleaving that counts down: the moves left to each of
    the threads below `N`. -/
def Counts (cd : pr.Countdown) (N : Nat) (c : S.Config) (m : Nat → Nat) : Prop :=
  pr.inv c.k ∧ (∀ t, N ≤ t → c.th t = .none) ∧ ∀ t, cd.Left t c.k (m t) (c.th t)

/-- A thread that has moved has one move less left, the others as many as before. -/
theorem Counts.put {N t : Nat} {c : S.Config} {m : Nat → Nat} {th : S.Thread} {k' : K} {b : Nat}
    (h : cd.Counts N c m) (ht : c.th t ≠ .none) (hi : pr.inv k') (hb : b < m t)
    (hth : cd.Left t k' b th) (hr : ∀ u, t ≠ u → pr.rely u c.k k') :
    ∃ m', cd.Counts N (c.put t th k') m' ∧
      ∑ u ∈ Finset.range N, m' u < ∑ u ∈ Finset.range N, m u := by
  have htN : t < N := by
    by_contra hN
    exact ht (h.2.1 t (Nat.le_of_not_lt hN))
  refine ⟨Function.update m t b, ⟨hi, fun u hu => ?_, fun u => ?_⟩, ?_⟩
  · rw [Config.put_th_ne _ _ _ (by omega)]
    exact h.2.1 u hu
  · by_cases hu : u = t
    · subst hu
      rw [Config.put_th_self, Function.update_self]
      exact hth
    · rw [Config.put_th_ne _ _ _ hu, Function.update_of_ne hu]
      exact (h.2.2 u).rely h.1 (hr u (Ne.symm hu))
  · -- the sum is less in one summand and the same in the others
    refine Finset.sum_lt_sum (fun u _ => ?_) ⟨t, Finset.mem_range.2 htN, ?_⟩
    · by_cases hu : u = t
      · subst hu
        rw [Function.update_self]
        omega
      · rw [Function.update_of_ne hu]
    · rw [Function.update_self]
      exact hb

/-- Every step counts down. -/
theorem Counts.step {N : Nat} {c c' : S.Config} {m : Nat → Nat} {l : S.Label}
    (h : cd.Counts N c m) (hok : pol.Allows c l) (hs : System.step c l = some c') :
    ∃ m', cd.Counts N c' m' ∧
      ∑ u ∈ Finset.range N, m' u < ∑ u ∈ Finset.range N, m u := by
  cases l with
  | start t call =>
    obtain ⟨s, ht, he, rfl⟩ := step_start hs
    obtain ⟨hidle, hm⟩ : cd.Left t c.k (m t) (.idle s) := ht ▸ h.2.2 t
    have hw := cd.bounded t s call he _ ⟨c.k, h.1, hidle, rfl⟩
    -- the call returns, so its postcondition bounds what it costs
    have hpos : cd.cost s call + 2 ≤ cd.budget s := by
      by_contra hlt
      have hfalse : (pr.env t).Within (cd.cost s call) _ (S.body call) fun _ _ => False :=
        hw.mono fun r k hQ => by omega
      exact hfalse.not_false
    refine h.put (by simp [ht]) (pr.enter_inv h.1 hidle he) (b := m t - 1) (by omega)
      ⟨cd.cost s call, cd.budget s - cd.cost s call - 1, by omega, ?_⟩
      fun u hu => pr.enter_rely hu h.1 hidle he
    exact hw.mono fun r k hQ => ⟨hQ.1, by omega⟩
  | op t ch =>
    obtain ⟨s, call, p, o, f, r, k', ht, hp, he, rfl⟩ := step_op hs
    obtain ⟨n, d, hnd, hw⟩ : cd.Left t c.k (m t) (.busy s call p) := ht ▸ h.2.2 t
    have hsem : semOf pol t o c.k r k' := ⟨ch, hok s call p o f ht hp, he⟩
    obtain ⟨-, j, rfl, hall⟩ := hw.of_call hp
    obtain ⟨hg, hw'⟩ := hall r k' hsem
    exact h.put (by simp [ht]) (pr.guar_inv hg) (b := m t - 1) (by omega)
      ⟨j, d, by omega, hw'⟩ fun u hu => pr.guar_rely hu hg
  | spin t =>
    obtain ⟨s, call, p, p', ht, hp, rfl⟩ := step_spin hs
    obtain ⟨n, d, hnd, hw⟩ : cd.Left t c.k (m t) (.busy s call p) := ht ▸ h.2.2 t
    obtain ⟨j, rfl, hw'⟩ := hw.of_spin hp
    exact h.put (by simp [ht]) h.1 (b := m t - 1) (by omega)
      ⟨j, d, by omega, hw'⟩ fun u _ => pr.rely_refl u c.k
  | finish t =>
    obtain ⟨s, call, p, r, ht, hp, rfl⟩ := step_finish hs
    obtain ⟨n, d, hnd, hw⟩ : cd.Left t c.k (m t) (.busy s call p) := ht ▸ h.2.2 t
    have hpost : pr.Post t s call r c.k ∧ cd.budget (S.after t s call r) + 1 ≤ d := hw.of_ret hp
    exact h.put (by simp [ht]) (pr.leave_inv h.1 hpost.1) (b := m t - 1) (by omega)
      ⟨hpost.1, by omega⟩ fun u hu => pr.leave_rely hu h.1 hpost.1
  | die t => exact absurd hok (cd.die t)
  | spawn t b => exact absurd hok (cd.spawn t b)

/-- A configuration that is not at rest has a step. -/
theorem Counts.live {N : Nat} {c : S.Config} {m : Nat → Nat} (h : cd.Counts N c m)
    (hrest : ¬ pr.AtRest c) : ∃ l c', pol.Allows c l ∧ System.step c l = some c' := by
  have hex : ∃ t, ¬ match c.th t with
      | .none => True
      | .idle s => pr.idle t s c.k ∧ ∀ call, S.enabled t s call = false
      | .busy _ _ _ => False := by
    by_contra hno
    exact hrest ⟨h.1, fun t => by_contra fun ht => hno ⟨t, ht⟩⟩
  -- some thread is inside a call, or idle with a call it may make
  obtain ⟨t, ht⟩ := hex
  have hleft := h.2.2 t
  cases hth : c.th t with
  | none => rw [hth] at ht; exact absurd trivial ht
  | idle s =>
    rw [hth] at ht hleft
    obtain ⟨call, hcall⟩ : ∃ call, S.enabled t s call = true := by
      by_contra hno
      exact ht ⟨hleft.1, fun call => by
        cases he : S.enabled t s call with
        | false => rfl
        | true => exact absurd ⟨call, he⟩ hno⟩
    exact ⟨.start t call, _, cd.start t call, by simp only [System.step, hth, hcall, if_true]; rfl⟩
  | busy s call p =>
    rw [hth] at hleft
    obtain ⟨n, d, -, hw⟩ := hleft
    cases hp : p.head with
    | ret r =>
      exact ⟨.finish t, _, cd.finish t, by simp only [System.step, hth, hp]; rfl⟩
    | spin p' =>
      exact ⟨.spin t, _, cd.spin t, by simp only [System.step, hth, hp]; rfl⟩
    | call o f =>
      have hlive : ∃ r k', semOf pol t o c.k r k' := (hw.of_call hp).1
      obtain ⟨r, k', ch, hch, he⟩ := hlive
      refine ⟨.op t ch, c.put t (.busy s call (f r)) k',
        ?_, by simp only [System.step, hth, hp, he]⟩
      -- the policy asks about the operation the thread is at
      intro s' call' p₁ o' f' hth' hp'
      rw [hth] at hth'
      cases hth'
      rw [hp] at hp'
      cases hp'
      exact hch

/-- At rest nothing more can happen. -/
theorem AtRest.stuck (cd : pr.Countdown) {c : S.Config} {l : S.Label} (hr : pr.AtRest c)
    (hok : pol.Allows c l) : System.step c l = none := by
  have hbusy : ∀ {t s call p}, c.th t ≠ .busy s call p := by
    intro t s call p hth
    have := hr.2 t
    rwa [hth] at this
  cases hs : System.step c l with
  | none => rfl
  | some c' =>
    cases l with
    | start t call =>
      obtain ⟨s, hth, he, -⟩ := step_start hs
      have hrest := hr.2 t
      rw [hth] at hrest
      rw [hrest.2 call] at he
      cases he
    | op t ch =>
      obtain ⟨s, call, p, o, f, r, k', hth, -⟩ := step_op hs
      exact absurd hth hbusy
    | spin t =>
      obtain ⟨s, call, p, p', hth, -⟩ := step_spin hs
      exact absurd hth hbusy
    | finish t =>
      obtain ⟨s, call, p, r, hth, -⟩ := step_finish hs
      exact absurd hth hbusy
    | die t => exact absurd hok (cd.die t)
    | spawn t b => exact absurd hok (cd.spawn t b)

/-- **Finitely many bounded clients inevitably come to rest.** -/
theorem Counts.inevitable {N : Nat} {c : S.Config} {m : Nat → Nat} (h : cd.Counts N c m) :
    Inevitable pol pr.AtRest c := by
  induction hM : ∑ u ∈ Finset.range N, m u using Nat.strong_induction_on generalizing c m with
  | _ M ih =>
    by_cases hrest : pr.AtRest c
    · exact .now hrest
    · refine .next (h.live hrest) fun l c' hok hs => ?_
      obtain ⟨m', h', hlt⟩ := h.step hok hs
      exact ih _ (hM ▸ hlt) h' rfl

end Countdown
end Protocol
end System
end Interact
