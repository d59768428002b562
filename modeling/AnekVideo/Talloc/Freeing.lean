/-
  AnekVideo.Talloc.Freeing

  What freeing a chunk does to the forest, as a relation.

  `Frees` is `_talloc_free` and its loop over the children without memory and bounds.
  Whatever it does happens below the chunk, except that handles elsewhere go with what
  they refer to; `Frame` says so, and every derivation stays within it.
-/
import AnekVideo.Talloc.Shape

namespace AnekVideo
namespace Talloc

open Relation Linked

theorem nil_ne_cons {L M : List Nat} {a : Nat} (h : L = []) (h' : L = a :: M) : False :=
  List.cons_ne_nil a M (h'.symm.trans h)

namespace Shape

variable {S S' S'' : Shape} {a b c d h p q x null : Nat} {L : List Nat}
    {answer : Nat → Bool → Prop}

/-- `a` keeps `c` alive: it is the parent, or a reference hangs off it. -/
def Keeps (S : Shape) (a c : Nat) : Prop :=
  S.Over a c ∨ (a ≠ 0 ∧ ∃ h ∈ S.refs c, S.up h = a)

theorem Keeps.of_over (h : S.Over a c) : S.Keeps a c := .inl h

/-- Where the newest reference hangs, the null context if nowhere. -/
def referrer (S : Shape) (null c : Nat) : Nat :=
  match S.refs c with
  | [] => null
  | h :: _ => if S.up h = 0 then null else S.up h

/-- The next owner of the child `c` of `p`, if `c` cannot be freed. -/
def heir (S : Shape) (null p c : Nat) : Nat :=
  if S.referrer null c = null ∧ S.up p ≠ 0 then S.up p else S.referrer null c

/-- A chunk is freed, or its children are. -/
inductive Job
  | free (p : Nat)
  | empty (p : Nat)

/-- `_talloc_free` and the loop in it; the boolean is whether the chunk was freed, the list
    the chunks whose destructors are asked.  `answer` says what each may answer, `true` that
    it refuses. -/
inductive Frees (null : Nat) (answer : Nat → Bool → Prop) :
    Job → Shape → Bool → List Nat → Shape → Prop
  | handle {S : Shape} {h c : Nat} (hh : h ∈ S.refs c) :
      Frees null answer (.free h) S true [] (S.drop h c)
  | held {S : Shape} {p h : Nat} {L : List Nat} (hr : S.refs p = h :: L)
      (hn : ¬ ReflTransGen S.Over p h) : Frees null answer (.free p) S false [] (S.drop h p)
  | again {S S' : Shape} {p h : Nat} {L l : List Nat} {b : Bool} (hr : S.refs p = h :: L)
      (hc : ReflTransGen S.Over p h) (hF : Frees null answer (.free p) (S.drop h p) b l S') :
      Frees null answer (.free p) S b l S'
  | refused {S : Shape} {p : Nat} (hr : S.refs p = []) (hn : ¬ S.IsHandle p) (hs : answer p true) :
      Frees null answer (.free p) S false [p] S
  | freed {S S' : Shape} {p : Nat} {l : List Nat} (hr : S.refs p = []) (hn : ¬ S.IsHandle p)
      (hs : answer p false) (hF : Frees null answer (.empty p) (S.takeOut p) true l S') :
      Frees null answer (.free p) S true (p :: l) (S'.release p)
  | done {S : Shape} {p : Nat} (hk : S.kids p = []) : Frees null answer (.empty p) S true [] S
  | child {S S' S'' : Shape} {p c : Nat} {L l l' : List Nat} (hk : S.kids p = c :: L)
      (hF : Frees null answer (.free c) S true l S')
        (hF' : Frees null answer (.empty p) S' true l' S'') :
      Frees null answer (.empty p) S true (l ++ l') S''
  | kept {S S' S'' : Shape} {p c : Nat} {L l l' : List Nat} (hk : S.kids p = c :: L)
      (hF : Frees null answer (.free c) S false l S')
      (hF' : Frees null answer (.empty p) (S'.steal c (S.heir null p c)) true l' S'') :
      Frees null answer (.empty p) S true (l ++ l') S''

/-! ## What holds of every derivation -/

/-- The null context is a chunk like any other that nothing owns or refers to. -/
def NullOk (S : Shape) (null : Nat) : Prop :=
  null = 0 ∨ (null ∈ S.live ∧ null ∉ S.loose ∧ S.up null = 0 ∧ ¬ S.IsHandle null ∧
    S.refs null = [])

theorem NullOk.not_keeps (hS : S.Wf) (hnull : S.NullOk null) : ¬ S.Keeps a null := by
  rcases hnull with rfl | ⟨-, -, hup, -, hrefs⟩
  · rintro (h | ⟨-, h, hh, -⟩)
    · exact hS.zero h.2.1
    · exact hS.zero (hS.refs 0 h hh).1
  · rintro (h | ⟨-, h, hh, -⟩)
    · exact h.1 (h.2.2.symm.trans hup)
    · rw [hrefs] at hh
      exact List.not_mem_nil hh

theorem NullOk.not_below (hS : S.Wf) (hnull : S.NullOk null) (hp : p ≠ null) :
    ¬ ReflTransGen S.Over p null := by
  intro h
  rcases h.cases_tail with heq | ⟨y, -, hy⟩
  · exact hp heq.symm
  · exact hnull.not_keeps hS (.inl hy)

/-- From `S` to `S'` things have changed below `p` only, apart from handles that are gone
    and what the null context has taken over. -/
structure Frame (null p : Nat) (S S' : Shape) : Prop where
  live : S'.live ⊆ S.live
  loose : S'.loose = S.loose
  refs : ∀ c, (S'.refs c).Sublist (S.refs c)
  up : ∀ c, ¬ ReflTransGen S.Over p c → S'.up c = S.up c
  handle : ∀ h, S'.IsHandle h → S'.up h = S.up h
  keeps : ∀ a c, a ≠ null → S'.Keeps a c → TransGen S.Keeps a c
  gone : ∀ c ∈ S.live, c ∉ S'.live → ReflTransGen S.Over p c ∨ ∃ t, c ∈ S.refs t ∧
    ReflTransGen S.Over p t

namespace Frame

theorem refl : Frame null p S S :=
  ⟨fun _ hc => hc, rfl, fun _ => .refl _, fun _ _ => rfl, fun _ _ => rfl,
    fun _ _ _ h => .single h, fun _ hc hc' => absurd hc hc'⟩

theorem over_or (h : Frame null p S S') (hab : S'.Over a b) :
    S.Over a b ∨ ReflTransGen S.Over p b := by
  by_cases hb : ReflTransGen S.Over p b
  · exact .inr hb
  · exact .inl ⟨hab.1, h.live hab.2.1, (h.up b hb).symm.trans hab.2.2⟩

/-- Nothing comes to lie below `p`. -/
theorem below (h : Frame null p S S') (hc : ReflTransGen S'.Over p c) :
    ReflTransGen S.Over p c := by
  induction hc with
  | refl => exact .refl
  | tail _ hbc ih => exact (h.over_or hbc).elim ih.tail id

theorem isHandle (h : Frame null p S S') (hh : S'.IsHandle d) : S.IsHandle d := by
  obtain ⟨c, hc⟩ := hh
  exact ⟨c, (h.refs c).subset hc⟩

theorem mono (h : Frame null q S S') (hpq : ReflTransGen S.Over p q) : Frame null p S S' where
  live := h.live
  loose := h.loose
  refs := h.refs
  up := fun c hc => h.up c fun hqc => hc (hpq.trans hqc)
  handle := h.handle
  keeps := h.keeps
  gone := fun c hc hc' => (h.gone c hc hc').imp hpq.trans fun ⟨t, ht, hqt⟩ =>
    ⟨t, ht, hpq.trans hqt⟩

theorem not_keeps (h : Frame null p S S') (hnull : ∀ a, ¬ S.Keeps a null) (hne : a ≠ null) :
    ¬ S'.Keeps a null := by
  intro hk
  obtain ⟨b, -, hb⟩ := TransGen.tail'_iff.1 (h.keeps a null hne hk)
  exact hnull b hb

/-- Paths of keepers from anything but the null context were there before. -/
theorem keeps_trans (h : Frame null p S S') (hnull : ∀ a, ¬ S.Keeps a null) (ha : a ≠ null)
    (hac : TransGen S'.Keeps a c) : c ≠ null ∧ TransGen S.Keeps a c := by
  induction hac with
  | single hk => exact ⟨fun hc => h.not_keeps hnull ha (hc ▸ hk), h.keeps _ _ ha hk⟩
  | tail _ hk ih =>
    obtain ⟨hb, hab⟩ := ih
    exact ⟨fun hc => h.not_keeps hnull hb (hc ▸ hk), hab.trans (h.keeps _ _ hb hk)⟩

theorem keeps_star (h : Frame null p S S') (hnull : ∀ a, ¬ S.Keeps a null) (ha : a ≠ null)
    (hac : ReflTransGen S'.Keeps a c) : ReflTransGen S.Keeps a c := by
  rcases reflTransGen_iff_eq_or_transGen.1 hac with rfl | hac
  · exact .refl
  · exact (h.keeps_trans hnull ha hac).2.to_reflTransGen

theorem trans (h : Frame null p S S') (h' : Frame null p S' S'')
    (hnull : ∀ a, ¬ S.Keeps a null) :
    Frame null p S S'' where
  live := h'.live.trans h.live
  loose := h'.loose.trans h.loose
  refs := fun c => (h'.refs c).trans (h.refs c)
  up := fun c hc => (h'.up c fun hc' => hc (h.below hc')).trans (h.up c hc)
  handle := fun d hd => (h'.handle d hd).trans (h.handle d (h'.isHandle hd))
  keeps := fun a c ha hk => (h.keeps_trans hnull ha (h'.keeps a c ha hk)).2
  gone := fun c hc hc'' => by
    by_cases hc' : c ∈ S'.live
    · rcases h'.gone c hc' hc'' with hpc | ⟨t, ht, hpt⟩
      · exact .inl (h.below hpc)
      · exact .inr ⟨t, (h.refs t).subset ht, h.below hpt⟩
    · exact h.gone c hc hc'

theorem keeps_of_drop (hS : S.Wf) (hk : (S.drop h c).Keeps a d) : S.Keeps a d := by
  refine hk.imp (fun ho => ⟨ho.1, Finset.mem_of_mem_erase ho.2.1, ho.2.2⟩) ?_
  rintro ⟨ha, y, hy, hup⟩
  exact ⟨ha, y, ((mem_unref hS).1 hy).1, hup⟩

/-- A handle goes that refers to something below `p`, or is below `p` itself. -/
theorem drop (hS : S.Wf) (hh : h ∈ S.refs c)
    (hp : ReflTransGen S.Over p c ∨ ReflTransGen S.Over p h) :
    Frame null p S (S.drop h c) where
  live := Finset.erase_subset ..
  loose := drop_loose (hS.refs c h hh).2.2
  refs := fun d => by
    by_cases hd : d = c
    · subst hd
      rw [drop_refs_self]
      exact List.erase_sublist
    · rw [drop_refs_ne hd]
  up := fun _ _ => rfl
  handle := fun _ _ => rfl
  keeps := fun _ _ _ hk => .single (keeps_of_drop hS hk)
  gone := fun d hd hd' => by
    -- the handle is all that goes
    obtain rfl : d = h := by
      by_contra hne
      exact hd' (Finset.mem_erase.2 ⟨hne, hd⟩)
    exact hp.symm.imp id fun hpc => ⟨c, hh, hpc⟩

/-- Then a chunk below `p` is moved to one that kept it. -/
theorem steal (h : Frame null p S S') (hl : c ∉ S'.loose) (hcn : ¬ S'.IsHandle c)
    (hpc : ReflTransGen S.Over p c) (hx : x ≠ null → x ≠ 0 → TransGen S.Keeps x c) :
    Frame null p S (S'.steal c x) where
  live := h.live
  loose := (steal_loose hl).trans h.loose
  refs := h.refs
  up := fun d hd => by
    have hdc : d ≠ c := by
      rintro rfl
      exact hd hpc
    rw [steal_up_ne hdc]
    exact h.up d hd
  handle := fun d hd => by
    have hdc : d ≠ c := by
      rintro rfl
      exact hcn hd
    rw [steal_up_ne hdc]
    exact h.handle d hd
  keeps := fun a d ha hk => by
    rcases hk with ⟨ha0, hd, hup⟩ | ⟨ha0, y, hy, hup⟩
    · by_cases hdc : d = c
      · subst hdc
        rw [steal_up_self] at hup
        subst hup
        exact hx ha ha0
      · rw [steal_up_ne hdc] at hup
        exact h.keeps a d ha (.inl ⟨ha0, hd, hup⟩)
    · have hyc : y ≠ c := by
        rintro rfl
        exact hcn ⟨d, hy⟩
      rw [steal_up_ne hyc] at hup
      exact h.keeps a d ha (.inr ⟨ha0, y, hy, hup⟩)
  gone := h.gone

/-- What happens between taking a chunk out and releasing it. -/
theorem freed (hl : p ∉ S.loose) (h : Frame null p (S.takeOut p) S') :
    Frame null p S (S'.release p) where
  live := (Finset.erase_subset ..).trans h.live
  loose := by
    change S'.loose.erase p = S.loose
    rw [h.loose]
    exact Finset.erase_insert hl
  refs := h.refs
  up := h.up
  handle := h.handle
  keeps := fun a c ha hk => by
    refine h.keeps a c ha (hk.imp (fun ho => ⟨ho.1, Finset.mem_of_mem_erase ho.2.1, ho.2.2⟩) id)
  gone := fun c hc hc' => by
    by_cases hcp : c = p
    · exact .inl (hcp ▸ .refl)
    · exact h.gone c hc fun hmem => hc' (Finset.mem_erase.2 ⟨hcp, hmem⟩)

/-- What is above `p` stays there. -/
theorem above (h : Frame null p S S') (hS : S.Wf) (hS' : S'.Wf) (hqp : TransGen S.Over q p)
    (hbq : ReflTransGen S.Over b q) (hq : q ∈ S'.live) :
    ReflTransGen S'.Over b q ∧ b ∈ S'.live := by
  induction hbq using ReflTransGen.head_induction_on with
  | refl => exact ⟨.refl, hq⟩
  | head hab hbq ih =>
    rename_i a b
    -- the induction climbs from `q`
    obtain ⟨hbq', hb⟩ := ih
    -- what is above `p` is not below it, so its parent has not changed
    have hnot : ¬ ReflTransGen S.Over p b :=
      hS.acyclic.not_below
        ((reflTransGen_iff_eq_or_transGen.1 hbq).elim (fun heq => heq ▸ hqp) fun h => h.trans hqp)
    have hup : S'.up b = a := (h.up b hnot).trans hab.2.2
    exact ⟨hbq'.head ⟨hab.1, hb, hup⟩, hup ▸ (hS'.up b hb).resolve_left (hup.symm ▸ hab.1)⟩

theorem nullOk (h : Frame null p S S') (hS : S.Wf) (hnull : S.NullOk null) (hp : p ≠ null) :
    S'.NullOk null := by
  have hbelow := hnull.not_below hS hp
  rcases hnull with rfl | ⟨hlive, hloose, hup, hhandle, hrefs⟩
  · exact .inl rfl
  · refine .inr ⟨?_, h.loose ▸ hloose, (h.up null hbelow).trans hup,
      fun hh => hhandle (h.isHandle hh), ?_⟩
    · -- it is neither below `p` nor a handle
      by_contra hdead
      rcases h.gone null hlive hdead with hpn | ⟨t, ht, -⟩
      · exact hbelow hpn
      · exact hhandle ⟨t, ht⟩
    · exact List.sublist_nil.1 (hrefs ▸ h.refs null)

end Frame

/-- A chunk below `p` that keeps itself by a reference is kept by no other reference, and
    its destructor does not refuse. -/
def Tame (S : Shape) (answer : Nat → Bool → Prop) (p : Nat) : Prop :=
  ∀ c, ReflTransGen S.Over p c → ∀ h ∈ S.refs c, ReflTransGen S.Keeps c (S.up h) →
    S.refs c = [h] ∧ ¬ answer c true

theorem Tame.mono (hT : S.Tame answer p) (hpq : ReflTransGen S.Over p q) : S.Tame answer q :=
  fun c hc => hT c (hpq.trans hc)

theorem keeps_of_over (h : ReflTransGen S.Over a b) : ReflTransGen S.Keeps a b :=
  ReflTransGen.mono (fun _ _ => Keeps.of_over) _ _ h

theorem Tame.frame (hT : S.Tame answer p) (hS : S.Wf) (hnull : S.NullOk null) (hp : p ≠ null)
    (h : Frame null p S S') : S'.Tame answer p := by
  intro c hc y hy hk
  have hpc := h.below hc
  have hcn : c ≠ null := by
    rintro rfl
    exact hnull.not_below hS hp hpc
  have hk' := h.keeps_star (fun _ => hnull.not_keeps hS) hcn hk
  rw [h.handle y ⟨c, hy⟩] at hk'
  obtain ⟨hrefs, hst⟩ := hT c hpc y ((h.refs c).subset hy) hk'
  refine ⟨?_, hst⟩
  rcases List.sublist_singleton.1 (hrefs ▸ h.refs c) with hnil | hsing
  · rw [hnil] at hy
    exact absurd hy List.not_mem_nil
  · exact hsing

/-- What `_talloc_free` of `p` relies on. -/
structure Ready (null : Nat) (answer : Nat → Bool → Prop) (S : Shape) (p : Nat) : Prop where
  wf : S.Wf
  nullOk : S.NullOk null
  live : p ∈ S.live
  ne : p ≠ null
  loose : ∀ b ∈ S.loose, ReflTransGen S.Over b p
  tame : S.Tame answer p

namespace Ready

theorem kid (h : Ready null answer S p) (hc : c ∈ S.kids p) : Ready null answer S c where
  wf := h.wf
  nullOk := h.nullOk
  live := (h.wf.live_of_kid hc).1
  ne := by
    rintro rfl
    exact h.nullOk.not_keeps h.wf (.inl (h.wf.edge hc))
  loose := fun b hb => (h.loose b hb).tail (h.wf.edge hc)
  tame := h.tame.mono (.single (h.wf.edge hc))

/-- After something happened below what is below `p`. -/
theorem frame (h : Ready null answer S p) (hS' : S'.Wf) (hpc : TransGen S.Over p c)
    (hF : Frame null c S S') (hp : p ∈ S'.live) : Ready null answer S' p where
  wf := hS'
  nullOk := (hF.mono hpc.to_reflTransGen).nullOk h.wf h.nullOk h.ne
  live := hp
  ne := h.ne
  loose := fun b hb => (hF.above h.wf hS' hpc (h.loose b (hF.loose ▸ hb)) hp).1
  tame := h.tame.frame h.wf h.nullOk h.ne (hF.mono hpc.to_reflTransGen)

theorem takeOut (h : Ready null answer S p) (hn : ¬ S.IsHandle p) :
    Ready null answer (S.takeOut p) p where
  wf := h.wf.takeOut h.live hn
  nullOk := h.nullOk.imp id fun hnull => ⟨hnull.1, fun hmem =>
    (Finset.mem_insert.1 hmem).elim (fun heq => h.ne heq.symm) hnull.2.1, hnull.2.2⟩
  live := h.live
  ne := h.ne
  loose := fun b hb => (Finset.mem_insert.1 hb).elim (fun heq => heq ▸ .refl) (h.loose b)
  tame := h.tame

/-- The newest reference to `p` is not below it unless it is the only one. -/
theorem drop (h : Ready null answer S p) (hr : S.refs p = a :: L) (hc : ReflTransGen S.Over p a) :
    Ready null answer (S.drop a p) p ∧ (S.drop a p).refs p = [] ∧ ¬ answer p true := by
  have ha : a ∈ S.refs p := hr ▸ List.mem_cons_self ..
  have hne : p ≠ a := by
    rintro rfl
    rw [(h.wf.leaf p p ha).1] at ha
    exact List.not_mem_nil ha
  have hpa : TransGen S.Over p a := (reflTransGen_iff_eq_or_transGen.1 hc).resolve_left hne.symm
  obtain ⟨q, hpq, hq⟩ := TransGen.tail'_iff.1 hpa
  obtain ⟨hrefs, hst⟩ := h.tame p .refl a ha (hq.2.2.symm ▸ keeps_of_over hpq)
  refine ⟨h.frame (h.wf.drop ha) hpa (.drop h.wf ha (.inr .refl))
    (Finset.mem_erase.2 ⟨hne, h.live⟩), ?_, hst⟩
  rw [drop_refs_self, hrefs, List.erase_cons_head]

/-- Why a chunk was not freed. -/
theorem of_false (h : Ready null answer S p) {l : List Nat}
    (hF : Frees null answer (.free p) S false l S') :
    ¬ S.IsHandle p ∧ ((S.refs p = [] ∧ answer p true ∧ S' = S) ∨
      ∃ a L, S.refs p = a :: L ∧ ¬ ReflTransGen S.Over p a ∧ S' = S.drop a p) := by
  cases hF with
  | @held S p a L hr hn =>
    refine ⟨fun ⟨d, hd⟩ => ?_, .inr ⟨a, L, hr, hn, rfl⟩⟩
    rw [(h.wf.leaf d p hd).1] at hr
    exact List.cons_ne_nil _ _ hr.symm
  | refused hr hn hs => exact ⟨hn, .inl ⟨hr, hs, rfl⟩⟩
  | again hr hc hF =>
    -- the one reference was below the chunk, which then is `Tame`: the second try finds no
    -- reference, and no refusal
    obtain ⟨-, hnil, hst⟩ := h.drop hr hc
    cases hF with
    | held hr' => exact (nil_ne_cons hnil hr').elim
    | again hr' => exact (nil_ne_cons hnil hr').elim
    | refused _ _ hs => exact absurd hs hst

/-- The owner that is found for a child is somewhere else, and has kept it. -/
theorem heir (h : Ready null answer S p) (hk : c ∈ S.kids p)
    (hr : ∀ a L, S.refs c = a :: L → ¬ ReflTransGen S.Over c a) :
    (S.heir null p c = 0 ∨ S.heir null p c ∈ S.live) ∧
      (S.heir null p c ≠ 0 → ¬ ReflTransGen S.Over c (S.heir null p c)) ∧
      ¬ S.IsHandle (S.heir null p c) ∧
      (S.heir null p c ≠ null → S.heir null p c ≠ 0 →
        TransGen S.Keeps (S.heir null p c) c) := by
  have hkid := h.kid hk
  have hpc := h.wf.edge hk
  by_cases hheir : S.heir null p c = null
  · rw [hheir]
    refine ⟨h.nullOk.imp id fun hnull => hnull.1, fun _ => h.nullOk.not_below h.wf hkid.ne, ?_,
      fun hne => absurd rfl hne⟩
    rintro ⟨d, hd⟩
    rcases h.nullOk with h0 | hnull
    · exact h.wf.ne_zero (h.wf.refs d null hd).2.1 h0
    · exact hnull.2.2.2.1 ⟨d, hd⟩
  · -- what is above a chunk with an edge to it
    have habove : ∀ {a b}, S.Over a b → a ∈ S.live ∧ ¬ S.IsHandle a := fun hab =>
      ⟨hab.2.2 ▸ (h.wf.up _ hab.2.1).resolve_left (hab.2.2.symm ▸ hab.1),
        fun hh => h.wf.handle_over hh hab⟩
    by_cases hparent : S.referrer null c = null ∧ S.up p ≠ 0
    · have hup : S.Over (S.up p) p := ⟨hparent.2, h.live, rfl⟩
      rw [show S.heir null p c = S.up p from if_pos hparent]
      exact ⟨.inr (habove hup).1, fun _ => h.wf.acyclic.not_below (.tail (.single hup) hpc),
        (habove hup).2, fun _ _ => .tail (.single (.inl hup)) (.inl hpc)⟩
    · have heq : S.heir null p c = S.referrer null c := if_neg hparent
      rw [heq] at hheir ⊢
      unfold referrer at hheir ⊢
      cases hrefs : S.refs c with
      | nil =>
        simp only [hrefs] at hheir
        exact absurd trivial hheir
      | cons a L =>
        simp only [hrefs] at hheir ⊢
        by_cases h0 : S.up a = 0
        · rw [if_pos h0] at hheir
          exact absurd rfl hheir
        · rw [if_neg h0]
          have ha : a ∈ S.refs c := hrefs ▸ List.mem_cons_self ..
          have hup : S.Over (S.up a) a := ⟨h0, (h.wf.refs c a ha).2.1, rfl⟩
          exact ⟨.inr (habove hup).1, fun _ hca => hr a L hrefs (hca.tail hup), (habove hup).2,
            fun _ _ => .single (.inr ⟨h0, a, ha, rfl⟩)⟩

end Ready

/-- The owner of a child that was not freed is still there to take it. -/
theorem Ready.kept (h : Ready null answer S p) (hk : c ∈ S.kids p) {l : List Nat}
    (hF : Frees null answer (.free c) S false l S') (hframe : Frame null c S S') (hS' : S'.Wf)
    (hc : c ∈ S'.live) :
    (S'.steal c (S.heir null p c)).Wf ∧ Frame null c S (S'.steal c (S.heir null p c)) := by
  obtain ⟨hn, hcase⟩ := (h.kid hk).of_false hF
  have hr : ∀ a L, S.refs c = a :: L → ¬ ReflTransGen S.Over c a := by
    rintro a L hrefs
    rcases hcase with ⟨hnil, -⟩ | ⟨a', L', hrefs', hnot, -⟩
    · exact (nil_ne_cons hnil hrefs).elim
    · obtain ⟨rfl, -⟩ := List.cons_eq_cons.1 (hrefs.symm.trans hrefs')
      exact hnot
  obtain ⟨hlive, hbelow, hhandle, hkeeps⟩ := h.heir hk hr
  have hn' : ¬ S'.IsHandle c := fun hh => hn (hframe.isHandle hh)
  have hl : c ∉ S'.loose := hframe.loose ▸ ((h.wf.kids p c).1 hk).2.2.1
  refine ⟨hS'.steal hc hn' (hlive.imp id fun hx => ?_) (fun h0 hcx => hbelow h0 (hframe.below hcx))
    fun hh => hhandle (hframe.isHandle hh), hframe.steal hl hn' .refl hkeeps⟩
  rcases hcase with ⟨-, -, rfl⟩ | ⟨a, L, hrefs, -, rfl⟩
  · exact hx
  · have ha : a ∈ S.refs c := hrefs ▸ List.mem_cons_self ..
    refine Finset.mem_erase.2 ⟨fun hxa => hhandle (hxa.symm ▸ ⟨c, ha⟩), hx⟩

namespace Job

/-- What a job relies on. -/
def Pre (null : Nat) (answer : Nat → Bool → Prop) (S : Shape) : Job → Prop
  | .free p => Ready null answer S p ∧ p ∉ S.loose
  | .empty p => Ready null answer S p ∧ p ∈ S.loose ∧ S.refs p = []

/-- What a job leaves. -/
def Post (null : Nat) (S : Shape) (b : Bool) (S' : Shape) : Job → Prop
  | .free p => S'.Wf ∧ Frame null p S S' ∧ (b = true ↔ p ∉ S'.live)
  | .empty p => S'.Wf ∧ Frame null p S S' ∧ S'.kids p = []

end Job

/-- The loop goes on after something happened below a child. -/
theorem Ready.next (h : Ready null answer S p) (hl : p ∈ S.loose) (hr : S.refs p = [])
    (hc : c ∈ S.kids p) (hwf : S'.Wf) (hframe : Frame null c S S') :
    (Job.empty p).Pre null answer S' := by
  have hl' : p ∈ S'.loose := hframe.loose ▸ hl
  have hpc : TransGen S.Over p c := .single (h.wf.edge hc)
  exact ⟨h.frame hwf hpc hframe (hwf.loose hl'), hl', List.sublist_nil.1 (hr ▸ hframe.refs p)⟩

theorem Frees.post {j : Job} {b : Bool} {l : List Nat} (hF : Frees null answer j S b l S')
    (hpre : j.Pre null answer S) :
    (∀ c ∈ l, c ∈ S.live ∧ c ∉ S.loose) ∧ j.Post null S b S' := by
  induction hF with
  | @handle S h c hh =>
    obtain ⟨hR, -⟩ := hpre
    exact ⟨fun _ hc => absurd hc List.not_mem_nil, hR.wf.drop hh, .drop hR.wf hh (.inr .refl),
      iff_of_true rfl fun hmem => Finset.notMem_erase h S.live hmem⟩
  | @held S p a L hr hn =>
    obtain ⟨hR, -⟩ := hpre
    have ha : a ∈ S.refs p := hr ▸ List.mem_cons_self ..
    have hne : p ≠ a := by
      rintro rfl
      exact hn .refl
    refine ⟨fun _ hc => absurd hc List.not_mem_nil, hR.wf.drop ha, .drop hR.wf ha (.inl .refl),
      iff_of_false Bool.false_ne_true fun hdead => ?_⟩
    exact hdead (Finset.mem_erase.2 ⟨hne, hR.live⟩)
  | @again S S' p a L l b hr hc hF ih =>
    obtain ⟨hR, hl⟩ := hpre
    have ha : a ∈ S.refs p := hr ▸ List.mem_cons_self ..
    have hframe : Frame null p S (S.drop a p) := .drop hR.wf ha (.inl .refl)
    obtain ⟨hasked, hwf, hframe', hb⟩ := ih ⟨(hR.drop hr hc).1, hframe.loose ▸ hl⟩
    exact ⟨fun c hc => ⟨hframe.live (hasked c hc).1, hframe.loose ▸ (hasked c hc).2⟩, hwf,
      hframe.trans hframe' fun _ => hR.nullOk.not_keeps hR.wf, hb⟩
  | refused hr hn hs =>
    obtain ⟨hR, hl⟩ := hpre
    exact ⟨fun c hc => List.mem_singleton.1 hc ▸ ⟨hR.live, hl⟩, hR.wf, .refl,
      iff_of_false Bool.false_ne_true (not_not.2 hR.live)⟩
  | @freed S S' p l hr hn _ hF ih =>
    obtain ⟨hR, hl⟩ := hpre
    obtain ⟨hasked, hwf, hframe, hkids⟩ := ih ⟨hR.takeOut hn, Finset.mem_insert_self .., hr⟩
    have hp : p ∈ S'.loose := hframe.loose ▸ Finset.mem_insert_self ..
    -- what was below the released chunk has left it: the loop empties its list
    refine ⟨fun c hc => (List.mem_cons.1 hc).elim (fun heq => heq ▸ ⟨hR.live, hl⟩)
        fun hc => ⟨(hasked c hc).1, fun hmem => (hasked c hc).2 (Finset.mem_insert_of_mem hmem)⟩,
      hwf.release hp (List.sublist_nil.1 (hr ▸ hframe.refs p)) fun d hd hup =>
        ?_, hframe.freed hl,
      iff_of_true rfl fun hmem => Finset.notMem_erase p S'.live hmem⟩
    by_cases hdl : d ∈ S'.loose
    · rw [hframe.loose] at hdl
      rcases Finset.mem_insert.1 hdl with rfl | hdl
      · exact hwf.up_ne hd hup
      · -- a loose chunk is above `p`, never below it
        have hdp : TransGen S.Over d p :=
          (reflTransGen_iff_eq_or_transGen.1 (hR.loose d hdl)).resolve_left
          fun heq => hl (heq ▸ hdl)
        have hupd : S.up d = p := (hframe.up d (hR.wf.acyclic.not_below hdp)).symm.trans hup
        exact hR.wf.acyclic d (hdp.tail ⟨hR.wf.ne_zero hR.live, hR.wf.loose hdl, hupd⟩)
    · have hmem := (hwf.kids p d).2 ⟨hwf.ne_zero (hwf.loose hp), hd, hdl, hup⟩
      exact List.not_mem_nil (hkids ▸ hmem)
  | done hk => exact ⟨fun _ hc => absurd hc List.not_mem_nil, hpre.1.wf, .refl, hk⟩
  | @child S S' S'' p c L l l' hk hF hF' ih ih' =>
    obtain ⟨hR, hl, hr⟩ := hpre
    have hc : c ∈ S.kids p := hk ▸ List.mem_cons_self ..
    have hpc : TransGen S.Over p c := .single (hR.wf.edge hc)
    obtain ⟨hasked, hwf, hframe, -⟩ := ih ⟨hR.kid hc, ((hR.wf.kids p c).1 hc).2.2.1⟩
    obtain ⟨hasked', hwf', hframe', hkids⟩ := ih' (hR.next hl hr hc hwf hframe)
    exact ⟨fun d hd => (List.mem_append.1 hd).elim (hasked d)
        fun hd => ⟨hframe.live (hasked' d hd).1, hframe.loose ▸ (hasked' d hd).2⟩, hwf',
      (hframe.mono hpc.to_reflTransGen).trans hframe' fun _ => hR.nullOk.not_keeps hR.wf, hkids⟩
  | @kept S S' S'' p c L l l' hk hF hF' ih ih' =>
    obtain ⟨hR, hl, hr⟩ := hpre
    have hc : c ∈ S.kids p := hk ▸ List.mem_cons_self ..
    have hpc : TransGen S.Over p c := .single (hR.wf.edge hc)
    obtain ⟨hasked, hwf, hframe, hlive⟩ := ih ⟨hR.kid hc, ((hR.wf.kids p c).1 hc).2.2.1⟩
    -- it refused or was held, so it is moved to its heir before the loop goes on
    obtain ⟨hwf, hframe⟩ :=
      hR.kept hc hF hframe hwf (by_contra fun hdead => Bool.false_ne_true (hlive.2 hdead))
    obtain ⟨hasked', hwf', hframe', hkids⟩ := ih' (hR.next hl hr hc hwf hframe)
    exact ⟨fun d hd => (List.mem_append.1 hd).elim (hasked d)
        fun hd => ⟨hframe.live (hasked' d hd).1, hframe.loose ▸ (hasked' d hd).2⟩, hwf',
      (hframe.mono hpc.to_reflTransGen).trans hframe' fun _ => hR.nullOk.not_keeps hR.wf, hkids⟩

/-- After a child was freed. -/
theorem Job.Pre.child (h : (Job.empty p).Pre null answer S) (hk : S.kids p = c :: L) {l : List Nat}
    (hF : Frees null answer (.free c) S true l S') :
    (Job.free c).Pre null answer S ∧ (Job.empty p).Pre null answer S' := by
  obtain ⟨hR, hl, hr⟩ := h
  have hc : c ∈ S.kids p := hk ▸ List.mem_cons_self ..
  have hpre : (Job.free c).Pre null answer S := ⟨hR.kid hc, ((hR.wf.kids p c).1 hc).2.2.1⟩
  obtain ⟨-, hwf, hframe, -⟩ := hF.post hpre
  exact ⟨hpre, hR.next hl hr hc hwf hframe⟩

/-- After a child that could not be freed was moved. -/
theorem Job.Pre.kept (h : (Job.empty p).Pre null answer S) (hk : S.kids p = c :: L) {l : List Nat}
    (hF : Frees null answer (.free c) S false l S') :
    (Job.free c).Pre null answer S ∧
      (Job.empty p).Pre null answer (S'.steal c (S.heir null p c)) := by
  obtain ⟨hR, hl, hr⟩ := h
  have hc : c ∈ S.kids p := hk ▸ List.mem_cons_self ..
  have hpre : (Job.free c).Pre null answer S := ⟨hR.kid hc, ((hR.wf.kids p c).1 hc).2.2.1⟩
  obtain ⟨-, hwf, hframe, hlive⟩ := hF.post hpre
  have hc' : c ∈ S'.live := by_contra fun hdead => Bool.false_ne_true (hlive.2 hdead)
  obtain ⟨hwf, hframe⟩ := hR.kept hc hF hframe hwf hc'
  exact ⟨hpre, hR.next hl hr hc hwf hframe⟩

/-- Where each destructor has one answer, there is one way to free a chunk. -/
theorem Frees.unique (hanswer : ∀ c b b', answer c b → answer c b' → b = b') {j : Job}
    {b b' : Bool} {l l' : List Nat} (hF : Frees null answer j S b l S')
    (hpre : j.Pre null answer S) (hF' : Frees null answer j S b' l' S'') :
    b = b' ∧ l = l' ∧ S' = S'' := by
  induction hF generalizing b' l' S'' with
  | @handle S h c hh =>
    -- a handle is one to a single chunk, has no references and is never asked
    have hS : S.Wf := hpre.1.wf
    have hrefs : S.refs h = [] := (hS.leaf c h hh).1
    cases hF' with
    | handle hh' =>
      obtain rfl := hS.target _ _ _ hh hh'
      exact ⟨rfl, rfl, rfl⟩
    | held hr' _ => exact (nil_ne_cons hrefs hr').elim
    | again hr' _ _ => exact (nil_ne_cons hrefs hr').elim
    | refused _ hn' _ => exact absurd ⟨c, hh⟩ hn'
    | freed _ hn' _ _ => exact absurd ⟨c, hh⟩ hn'
  | @held S p h L hr hn =>
    cases hF' with
    | handle hh' =>
      exact (nil_ne_cons (hpre.1.wf.leaf _ p hh').1 hr).elim
    | held hr' _ =>
      obtain ⟨rfl, -⟩ := List.cons_eq_cons.1 (hr.symm.trans hr')
      exact ⟨rfl, rfl, rfl⟩
    | again hr' hc' _ =>
      obtain ⟨rfl, -⟩ := List.cons_eq_cons.1 (hr.symm.trans hr')
      exact absurd hc' hn
    | refused hr' _ _ => exact (nil_ne_cons hr' hr).elim
    | freed hr' _ _ _ => exact (nil_ne_cons hr' hr).elim
  | @again S S' p h L l b hr hc hF ih =>
    obtain ⟨hR, hl⟩ := hpre
    cases hF' with
    | handle hh' => exact (nil_ne_cons (hR.wf.leaf _ p hh').1 hr).elim
    | held hr' hn' =>
      obtain ⟨rfl, -⟩ := List.cons_eq_cons.1 (hr.symm.trans hr')
      exact absurd hc hn'
    | again hr' _ hF' =>
      obtain ⟨rfl, -⟩ := List.cons_eq_cons.1 (hr.symm.trans hr')
      have hloose : (S.drop h p).loose = S.loose :=
        drop_loose (hR.wf.refs p h (hr ▸ List.mem_cons_self ..)).2.2
      exact ih ⟨(hR.drop hr hc).1, hloose ▸ hl⟩ hF'
    | refused hr' _ _ => exact (nil_ne_cons hr' hr).elim
    | freed hr' _ _ _ => exact (nil_ne_cons hr' hr).elim
  | @refused S p hr hn hs =>
    cases hF' with
    | handle hh' => exact absurd ⟨_, hh'⟩ hn
    | held hr' _ => exact (nil_ne_cons hr hr').elim
    | again hr' _ _ => exact (nil_ne_cons hr hr').elim
    | refused _ _ _ => exact ⟨rfl, rfl, rfl⟩
    | freed _ _ hs' _ => exact absurd (hanswer p _ _ hs hs') Bool.false_ne_true.symm
  | @freed S S' p l hr hn hs hF ih =>
    cases hF' with
    | handle hh' => exact absurd ⟨_, hh'⟩ hn
    | held hr' _ => exact (nil_ne_cons hr hr').elim
    | again hr' _ _ => exact (nil_ne_cons hr hr').elim
    | refused _ _ hs' => exact absurd (hanswer p _ _ hs hs') Bool.false_ne_true
    | freed _ _ _ hF' =>
      obtain ⟨-, rfl, rfl⟩ := ih ⟨hpre.1.takeOut hn, Finset.mem_insert_self .., hr⟩ hF'
      exact ⟨rfl, rfl, rfl⟩
  | @done S p hk =>
    cases hF' with
    | done _ => exact ⟨rfl, rfl, rfl⟩
    | child hk' _ _ => exact (nil_ne_cons hk hk').elim
    | kept hk' _ _ => exact (nil_ne_cons hk hk').elim
  | @child S S₁ S₂ p c L l l₁ hk hF hF₁ ih ih₁ =>
    obtain ⟨hpre', hrest⟩ := hpre.child hk hF
    cases hF' with
    | done hk' => exact (nil_ne_cons hk' hk).elim
    | child hk' hF' hF₁' =>
      obtain ⟨rfl, -⟩ := List.cons_eq_cons.1 (hk.symm.trans hk')
      obtain ⟨-, rfl, rfl⟩ := ih hpre' hF'
      obtain ⟨-, rfl, rfl⟩ := ih₁ hrest hF₁'
      exact ⟨rfl, rfl, rfl⟩
    | kept hk' hF' _ =>
      obtain ⟨rfl, -⟩ := List.cons_eq_cons.1 (hk.symm.trans hk')
      exact absurd (ih hpre' hF').1 Bool.false_ne_true.symm
  | @kept S S₁ S₂ p c L l l₁ hk hF hF₁ ih ih₁ =>
    obtain ⟨hpre', hrest⟩ := hpre.kept hk hF
    cases hF' with
    | done hk' => exact (nil_ne_cons hk' hk).elim
    | child hk' hF' _ =>
      obtain ⟨rfl, -⟩ := List.cons_eq_cons.1 (hk.symm.trans hk')
      exact absurd (ih hpre' hF').1 Bool.false_ne_true
    | kept hk' hF' hF₁' =>
      obtain ⟨rfl, -⟩ := List.cons_eq_cons.1 (hk.symm.trans hk')
      obtain ⟨-, rfl, rfl⟩ := ih hpre' hF'
      obtain ⟨-, rfl, rfl⟩ := ih₁ hrest hF₁'
      exact ⟨rfl, rfl, rfl⟩

/-! ## The loop makes progress -/

theorem takeOut_card_lt (hp : p ∈ S.live) (hl : p ∉ S.loose) :
    ((S.takeOut p).live \ (S.takeOut p).loose).card < (S.live \ S.loose).card := by
  have hsplit : (S.takeOut p).live \ (S.takeOut p).loose = (S.live \ S.loose).erase p :=
    Finset.sdiff_insert ..
  rw [hsplit]
  exact Finset.card_erase_lt_of_mem (Finset.mem_sdiff.2 ⟨hp, hl⟩)

theorem Frame.below_lt (h : Frame null p S S') (hx : x ∈ S.live) (hpx : ReflTransGen S.Over p x)
    (hgone : x ∉ S'.live ∨ ¬ ReflTransGen S'.Over p x) :
    (Linked.below S'.Over S'.live p).card < (Linked.below S.Over S.live p).card := by
  refine Finset.card_lt_card (Finset.ssubset_iff_subset_ne.2 ⟨fun c hc => ?_, fun heq => ?_⟩)
  · obtain ⟨hlive, hpc⟩ := mem_below.1 hc
    exact mem_below.2 ⟨h.live hlive, h.below hpc⟩
  · have hmem : x ∈ Linked.below S'.Over S'.live p := heq ▸ mem_below.2 ⟨hx, hpx⟩
    obtain ⟨hlive, hpx'⟩ := mem_below.1 hmem
    exact hgone.elim (fun hn => hn hlive) fun hn => hn hpx'

/-- A child that moves stays below `p` only where a handle there has gone. -/
theorem Ready.kept_lt (h : Ready null answer S p) (hk : c ∈ S.kids p) {l : List Nat}
    (hF : Frees null answer (.free c) S false l S')
    (hframe : Frame null c S (S'.steal c (S.heir null p c))) :
    (Linked.below (S'.steal c (S.heir null p c)).Over (S'.steal c (S.heir null p c)).live p).card <
      (Linked.below S.Over S.live p).card := by
  have hpc := h.wf.edge hk
  have hframe' := hframe.mono (ReflTransGen.single hpc)
  by_cases hx : ReflTransGen S.Over p (S.heir null p c)
  · -- the heir is below `p`: the newest reference hung off it, and that handle has gone
    have hnull : S.heir null p c ≠ null := by
      intro heq
      exact h.nullOk.not_below h.wf h.ne (heq ▸ hx)
    have hup : ¬ (S.referrer null c = null ∧ S.up p ≠ 0) := by
      intro hcond
      rw [show S.heir null p c = S.up p from if_pos hcond] at hx
      exact h.wf.acyclic.not_below (.single ⟨hcond.2, h.live, rfl⟩) hx
    have heq : S.heir null p c = S.referrer null c := if_neg hup
    rw [heq] at hx hnull
    rcases ((h.kid hk).of_false hF).2 with ⟨hnil, -⟩ | ⟨a, L, hrefs, -, rfl⟩
    · rw [referrer, hnil] at hnull
      exact absurd rfl hnull
    · have ha : a ∈ S.refs c := hrefs ▸ List.mem_cons_self ..
      have hal := (h.wf.refs c a ha).2.1
      rw [referrer, hrefs] at hx hnull
      by_cases h0 : S.up a = 0
      · simp only [h0, if_true] at hnull
        exact absurd rfl hnull
      · simp only [h0, if_false] at hx
        exact hframe'.below_lt hal (hx.tail ⟨h0, hal, rfl⟩)
          (.inl fun hmem => (Finset.mem_erase.1 hmem).1 rfl)
  · refine hframe'.below_lt (h.wf.live_of_kid hk).1 (.single hpc) (.inr fun hpc' => ?_)
    rcases hpc'.cases_tail with heq | ⟨y, hpy, hy⟩
    · exact h.wf.up_ne h.live ((h.wf.up_of_kid (heq ▸ hk)))
    · -- the child itself has left, for its heir is elsewhere
      have hyx : S.heir null p c = y := steal_up_self.symm.trans hy.2.2
      exact hx (hframe'.below (hyx ▸ hpy))

end Shape
end Talloc
end AnekVideo
