/-
  AnekVideo.Talloc.Shape

  What the links of talloc stand for: a forest of chunks, each with the references to it.

  `up` is the parent of a chunk, 0 for none, `kids` lists its children and `refs` the
  handles that refer to it, both with the newest first.  A chunk that is being moved or
  freed is `loose`: it stands in no list of children, but `up` still knows its parent.
-/
import AnekVideo.Linked.Graph

namespace AnekVideo
namespace Talloc

open Relation Linked

/-- A forest with references. -/
@[ext] structure Shape where
  live : Finset Nat
  loose : Finset Nat
  up : Nat → Nat
  kids : Nat → List Nat
  refs : Nat → List Nat

namespace Shape

variable {S : Shape} {c h p x : Nat}

/-- `p` is the parent of `c`. -/
def Over (S : Shape) (p c : Nat) : Prop := p ≠ 0 ∧ c ∈ S.live ∧ S.up c = p

/-- `h` is the handle of a reference. -/
def IsHandle (S : Shape) (h : Nat) : Prop := ∃ c, h ∈ S.refs c

/-- The lists fit together, and no chunk is its own ancestor. -/
structure Wf (S : Shape) : Prop where
  zero : 0 ∉ S.live
  loose : S.loose ⊆ S.live
  up : ∀ c ∈ S.live, S.up c = 0 ∨ S.up c ∈ S.live
  kids : ∀ p c, c ∈ S.kids p ↔ p ≠ 0 ∧ c ∈ S.live ∧ c ∉ S.loose ∧ S.up c = p
  nodup : ∀ p, (S.kids p).Nodup
  acyclic : Acyclic S.Over
  refs_nodup : ∀ c, (S.refs c).Nodup
  refs : ∀ c h, h ∈ S.refs c → c ∈ S.live ∧ h ∈ S.live ∧ h ∉ S.loose
  target : ∀ c c' h, h ∈ S.refs c → h ∈ S.refs c' → c = c'
  leaf : ∀ c h, h ∈ S.refs c → S.refs h = [] ∧ ∀ x ∈ S.live, S.up x ≠ h

namespace Wf

theorem ne_zero (hS : S.Wf) (hc : c ∈ S.live) : c ≠ 0 := by
  rintro rfl
  exact hS.zero hc

theorem edge (hS : S.Wf) (hc : c ∈ S.kids p) : S.Over p c := by
  obtain ⟨h0, hl, -, hup⟩ := (hS.kids p c).1 hc
  exact ⟨h0, hl, hup⟩

theorem mem_kids (hS : S.Wf) (hc : c ∈ S.live) (hl : c ∉ S.loose) (h0 : S.up c ≠ 0) :
    c ∈ S.kids (S.up c) := (hS.kids _ _).2 ⟨h0, hc, hl, rfl⟩

theorem up_of_kid (hS : S.Wf) (hc : c ∈ S.kids p) : S.up c = p := (hS.edge hc).2.2

theorem live_of_kid (hS : S.Wf) (hc : c ∈ S.kids p) : c ∈ S.live ∧ p ∈ S.live := by
  obtain ⟨h0, hl, -, hup⟩ := (hS.kids p c).1 hc
  exact ⟨hl, hup ▸ (hS.up c hl).resolve_left (hup.symm ▸ h0)⟩

/-- A chunk stands in one list at most. -/
theorem kid_unique (hS : S.Wf) (hc : c ∈ S.kids p) (hc' : c ∈ S.kids x) : p = x :=
  (hS.up_of_kid hc).symm.trans (hS.up_of_kid hc')

theorem zero_notMem_kids (hS : S.Wf) : 0 ∉ S.kids p := fun h0 => hS.zero (hS.live_of_kid h0).1

theorem kids_zero (hS : S.Wf) : S.kids 0 = [] :=
  List.eq_nil_iff_forall_not_mem.2 fun c hc => ((hS.kids 0 c).1 hc).1 rfl

theorem kids_of_dead (hS : S.Wf) (hp : p ∉ S.live) : S.kids p = [] :=
  List.eq_nil_iff_forall_not_mem.2 fun _ hc => hp (hS.live_of_kid hc).2

theorem refs_of_dead (hS : S.Wf) (hp : p ∉ S.live) : S.refs p = [] :=
  List.eq_nil_iff_forall_not_mem.2 fun h hh => hp (hS.refs p h hh).1

theorem up_ne (hS : S.Wf) (hc : c ∈ S.live) : S.up c ≠ c := by
  intro hup
  exact hS.acyclic.irrefl c ⟨hS.ne_zero hc, hc, hup⟩

/-- No chunk has a handle above it. -/
theorem handle_over (hS : S.Wf) (hh : S.IsHandle h) : ¬ S.Over h c := by
  obtain ⟨x, hx⟩ := hh
  rintro ⟨-, hc, hup⟩
  exact (hS.leaf x h hx).2 c hc hup

/-- What is above a chunk that is no handle is no handle either. -/
theorem not_handle_above (hS : S.Wf) (hc : ¬ S.IsHandle c) (hp : ReflTransGen S.Over p c) :
    ¬ S.IsHandle p := by
  rcases hp.cases_head with rfl | ⟨d, hd, -⟩
  · exact hc
  · intro hh
    exact hS.handle_over hh hd

theorem kids_of_handle (hS : S.Wf) (hh : S.IsHandle h) : S.kids h = [] :=
  List.eq_nil_iff_forall_not_mem.2 fun _ hc => hS.handle_over hh (hS.edge hc)

end Wf

theorem live_of_below (hp : p ∈ S.live) (hc : ReflTransGen S.Over p c) : c ∈ S.live := by
  rcases hc.cases_tail with rfl | ⟨d, -, hd⟩
  · exact hp
  · exact hd.2.1

/-! ## Taking a chunk out of its list -/

/-- `c` out of the list of its parent. -/
def takeOut (S : Shape) (c : Nat) : Shape where
  live := S.live
  loose := insert c S.loose
  up := S.up
  kids := Function.update S.kids (S.up c) ((S.kids (S.up c)).erase c)
  refs := S.refs

theorem takeOut_kids_self : (S.takeOut c).kids (S.up c) = (S.kids (S.up c)).erase c :=
  Function.update_self ..

theorem takeOut_kids_ne (hp : p ≠ S.up c) : (S.takeOut c).kids p = S.kids p :=
  Function.update_of_ne hp ..

theorem mem_takeOut_kids (hS : S.Wf) {d : Nat} :
    d ∈ (S.takeOut c).kids p ↔ d ∈ S.kids p ∧ d ≠ c := by
  by_cases hp : p = S.up c
  · subst hp
    rw [takeOut_kids_self, (hS.nodup _).mem_erase_iff, and_comm]
  · rw [takeOut_kids_ne hp, iff_self_and]
    rintro hd rfl
    exact hp (hS.up_of_kid hd).symm

theorem Wf.takeOut (hS : S.Wf) (hc : c ∈ S.live) (hh : ¬ S.IsHandle c) : (S.takeOut c).Wf where
  zero := hS.zero
  loose := Finset.insert_subset hc hS.loose
  up := hS.up
  kids := fun p d => by
    rw [mem_takeOut_kids hS, hS.kids]
    change _ ↔ p ≠ 0 ∧ d ∈ S.live ∧ d ∉ insert c S.loose ∧ S.up d = p
    rw [Finset.mem_insert, not_or]
    tauto
  nodup := fun p => by
    by_cases hp : p = S.up c
    · subst hp
      rw [takeOut_kids_self]
      exact (hS.nodup _).erase c
    · rw [takeOut_kids_ne hp]
      exact hS.nodup p
  acyclic := hS.acyclic
  refs_nodup := hS.refs_nodup
  refs := fun d h hd => by
    obtain ⟨hd', hl, hlo⟩ := hS.refs d h hd
    refine ⟨hd', hl, fun hmem => ?_⟩
    rcases Finset.mem_insert.1 hmem with rfl | hmem
    · exact hh ⟨d, hd⟩
    · exact hlo hmem
  target := hS.target
  leaf := hS.leaf

/-! ## Putting a chunk into a list -/

/-- `c` in front of the children of `x`, or without a parent for `x = 0`. -/
def place (S : Shape) (c x : Nat) : Shape where
  live := S.live
  loose := S.loose.erase c
  up := Function.update S.up c x
  kids := if x = 0 then S.kids else Function.update S.kids x (c :: S.kids x)
  refs := S.refs

theorem place_up_self : (S.place c x).up c = x := Function.update_self ..

theorem place_up_ne {d : Nat} (hd : d ≠ c) : (S.place c x).up d = S.up d :=
  Function.update_of_ne hd ..

theorem place_kids_self (hx : x ≠ 0) : (S.place c x).kids x = c :: S.kids x := by
  simp only [place, if_neg hx, Function.update_self]

theorem place_kids_zero : (S.place c 0).kids = S.kids := by
  simp only [place, if_true]

theorem place_kids_ne (hp : p ≠ x) : (S.place c x).kids p = S.kids p := by
  by_cases hx : x = 0
  · subst hx
    rw [place_kids_zero]
  · simp only [place, if_neg hx, Function.update_of_ne hp]

/-- The edges of the tree after a chunk was hung up elsewhere. -/
theorem place_over {d : Nat} (h : (S.place c x).Over p d) : S.Over p d ∨ (p = x ∧ d = c) := by
  obtain ⟨h0, hd, hup⟩ := h
  by_cases hdc : d = c
  · subst hdc
    rw [place_up_self] at hup
    exact .inr ⟨hup.symm, rfl⟩
  · rw [place_up_ne hdc] at hup
    exact .inl ⟨h0, hd, hup⟩

theorem Wf.place (hS : S.Wf) (hc : c ∈ S.loose) (hx : x = 0 ∨ x ∈ S.live)
    (hbelow : x ≠ 0 → ¬ ReflTransGen S.Over c x) (hh : ¬ S.IsHandle x) :
    (S.place c x).Wf := by
  have hcl : c ∈ S.live := hS.loose hc
  have hcx : ∀ {p}, c ∉ S.kids p := fun hmem => ((hS.kids _ _).1 hmem).2.2.1 hc
  refine ⟨hS.zero, (Finset.erase_subset ..).trans hS.loose, fun d hd => ?_, fun p d => ?_,
    fun p => ?_, ?_, hS.refs_nodup, fun d h hd => ?_, hS.target, fun d h hd => ?_⟩
  · by_cases hdc : d = c
    · subst hdc
      rw [place_up_self]
      exact hx
    · rw [place_up_ne hdc]
      exact hS.up d hd
  · change _ ↔ p ≠ 0 ∧ d ∈ S.live ∧ d ∉ S.loose.erase c ∧ (S.place c x).up d = p
    by_cases hdc : d = c
    · subst hdc
      rw [place_up_self]
      by_cases hp : p = x
      · subst hp
        by_cases h0 : p = 0
        · subst h0
          rw [place_kids_zero, hS.kids_zero]
          simp
        · rw [place_kids_self h0]
          simp [h0, hcl]
      · rw [place_kids_ne hp]
        exact iff_of_false hcx fun h => hp h.2.2.2.symm
    · rw [place_up_ne hdc]
      have hloose : d ∉ S.loose.erase c ↔ d ∉ S.loose := by simp [hdc]
      rw [hloose, ← hS.kids]
      by_cases hp : p = x
      · subst hp
        by_cases h0 : p = 0
        · subst h0
          rw [place_kids_zero]
        · rw [place_kids_self h0, List.mem_cons, or_iff_right hdc]
      · rw [place_kids_ne hp]
  · by_cases hp : p = x
    · subst hp
      by_cases h0 : p = 0
      · subst h0
        rw [place_kids_zero]
        exact hS.nodup 0
      · rw [place_kids_self h0]
        exact List.nodup_cons.2 ⟨hcx, hS.nodup p⟩
    · rw [place_kids_ne hp]
      exact hS.nodup p
  · by_cases h0 : x = 0
    · subst h0
      refine hS.acyclic.mono fun a b hab => ?_
      rcases place_over hab with h | ⟨rfl, -⟩
      · exact h
      · exact absurd rfl hab.1
    · exact hS.acyclic.hang (hbelow h0) fun a b hab => place_over hab
  · obtain ⟨hd', hl, hlo⟩ := hS.refs d h hd
    exact ⟨hd', hl, fun hmem => hlo (Finset.mem_of_mem_erase hmem)⟩
  · refine ⟨(hS.leaf d h hd).1, fun y hy => ?_⟩
    by_cases hyc : y = c
    · subst hyc
      rw [place_up_self]
      rintro rfl
      exact hh ⟨d, hd⟩
    · rw [place_up_ne hyc]
      exact (hS.leaf d h hd).2 y hy

/-! ## Chunks come and go -/

/-- A new chunk `c`, loose. -/
def born (S : Shape) (c x : Nat) : Shape where
  live := insert c S.live
  loose := insert c S.loose
  up := Function.update S.up c x
  kids := S.kids
  refs := S.refs

theorem born_up_self : (S.born c x).up c = x := Function.update_self ..

theorem born_up_ne {d : Nat} (hd : d ≠ c) : (S.born c x).up d = S.up d :=
  Function.update_of_ne hd ..

theorem Wf.born (hS : S.Wf) (hc : c ∉ S.live) (h0 : c ≠ 0) : (S.born c 0).Wf where
  zero := fun hmem => (Finset.mem_insert.1 hmem).elim h0.symm hS.zero
  loose := Finset.insert_subset_insert _ hS.loose
  up := fun d hd => by
    by_cases hdc : d = c
    · subst hdc
      exact .inl born_up_self
    · have hdl : d ∈ S.live := Finset.mem_of_mem_insert_of_ne hd hdc
      rw [born_up_ne hdc]
      exact (hS.up d hdl).imp_right Finset.mem_insert_of_mem
  kids := fun p d => by
    change d ∈ S.kids p ↔ p ≠ 0 ∧ d ∈ insert c S.live ∧ d ∉ insert c S.loose ∧
      (S.born c 0).up d = p
    by_cases hdc : d = c
    · subst hdc
      simp only [Finset.mem_insert_self, not_true_eq_false, false_and, and_false, iff_false]
      exact fun hmem => hc (hS.live_of_kid hmem).1
    · rw [born_up_ne hdc, hS.kids]
      simp [hdc]
  nodup := hS.nodup
  acyclic := hS.acyclic.mono fun a b hab => by
    obtain ⟨ha, hb, hup⟩ := hab
    by_cases hbc : b = c
    · subst hbc
      exact absurd (born_up_self.symm.trans hup).symm ha
    · exact ⟨ha, Finset.mem_of_mem_insert_of_ne hb hbc, (born_up_ne hbc).symm.trans hup⟩
  refs_nodup := hS.refs_nodup
  refs := fun d h hd => by
    obtain ⟨hd', hl, hlo⟩ := hS.refs d h hd
    refine ⟨Finset.mem_insert_of_mem hd', Finset.mem_insert_of_mem hl, fun hmem => ?_⟩
    rcases Finset.mem_insert.1 hmem with rfl | hmem
    · exact hc hl
    · exact hlo hmem
  target := hS.target
  leaf := fun d h hd => by
    refine ⟨(hS.leaf d h hd).1, fun y hy => ?_⟩
    by_cases hyc : y = c
    · subst hyc
      rw [born_up_self]
      exact (hS.ne_zero (hS.refs d h hd).2.1).symm
    · rw [born_up_ne hyc]
      exact (hS.leaf d h hd).2 y (Finset.mem_of_mem_insert_of_ne hy hyc)

/-- The loose chunk `c` is gone. -/
def release (S : Shape) (c : Nat) : Shape where
  live := S.live.erase c
  loose := S.loose.erase c
  up := S.up
  kids := S.kids
  refs := S.refs

theorem Wf.release (hS : S.Wf) (hc : c ∈ S.loose) (hrefs : S.refs c = [])
    (hup : ∀ d ∈ S.live, S.up d ≠ c) : (S.release c).Wf where
  zero := fun h => hS.zero (Finset.mem_of_mem_erase h)
  loose := Finset.erase_subset_erase _ hS.loose
  up := fun d hd => by
    have hdl : d ∈ S.live := Finset.mem_of_mem_erase hd
    exact (hS.up d hdl).imp_right fun h => Finset.mem_erase.2 ⟨hup d hdl, h⟩
  kids := fun p d => by
    change d ∈ S.kids p ↔ p ≠ 0 ∧ d ∈ S.live.erase c ∧ d ∉ S.loose.erase c ∧
      S.up d = p
    rw [hS.kids]
    by_cases hdc : d = c
    · subst hdc
      simp [hc]
    · simp [hdc]
  nodup := hS.nodup
  acyclic := hS.acyclic.mono fun _ _ hab => ⟨hab.1, Finset.mem_of_mem_erase hab.2.1, hab.2.2⟩
  refs_nodup := hS.refs_nodup
  refs := fun d h hd => by
    obtain ⟨hd', hl, hlo⟩ := hS.refs d h hd
    have hdc : d ≠ c := by
      rintro rfl
      exact List.not_mem_nil (hrefs ▸ hd)
    have hhc : h ≠ c := by
      rintro rfl
      exact hlo hc
    exact ⟨Finset.mem_erase.2 ⟨hdc, hd'⟩, Finset.mem_erase.2 ⟨hhc, hl⟩,
      fun hmem => hlo (Finset.mem_of_mem_erase hmem)⟩
  target := hS.target
  leaf := fun d h hd => ⟨(hS.leaf d h hd).1,
    fun y hy => (hS.leaf d h hd).2 y (Finset.mem_of_mem_erase hy)⟩

/-! ## References -/

/-- `h`, a chunk without children, becomes a handle that refers to `c`. -/
def addRef (S : Shape) (h c : Nat) : Shape :=
  { S with refs := Function.update S.refs c (h :: S.refs c) }

/-- The handle `h` no longer refers to `c`. -/
def unref (S : Shape) (h c : Nat) : Shape :=
  { S with refs := Function.update S.refs c ((S.refs c).erase h) }

theorem addRef_self : (S.addRef h c).refs c = h :: S.refs c := Function.update_self ..

theorem addRef_ne {d : Nat} (hd : d ≠ c) : (S.addRef h c).refs d = S.refs d :=
  Function.update_of_ne hd ..

theorem unref_self : (S.unref h c).refs c = (S.refs c).erase h := Function.update_self ..

theorem unref_ne {d : Nat} (hd : d ≠ c) : (S.unref h c).refs d = S.refs d :=
  Function.update_of_ne hd ..

theorem mem_addRef {d y : Nat} :
    y ∈ (S.addRef h c).refs d ↔ (d = c ∧ y = h) ∨ y ∈ S.refs d := by
  by_cases hd : d = c
  · subst hd
    rw [addRef_self]
    simp
  · rw [addRef_ne hd]
    simp [hd]

theorem mem_unref (hS : S.Wf) {d y : Nat} :
    y ∈ (S.unref h c).refs d ↔ y ∈ S.refs d ∧ ¬ (d = c ∧ y = h) := by
  by_cases hd : d = c
  · subst hd
    rw [unref_self, (hS.refs_nodup d).mem_erase_iff]
    tauto
  · rw [unref_ne hd]
    simp [hd]

theorem Wf.addRef (hS : S.Wf) (hc : c ∈ S.live) (hcn : ¬ S.IsHandle c) (hh : h ∈ S.live)
    (hl : h ∉ S.loose) (hne : c ≠ h) (hn : ¬ S.IsHandle h) (hrefs : S.refs h = [])
    (hup : ∀ x ∈ S.live, S.up x ≠ h) :
    (S.addRef h c).Wf where
  zero := hS.zero
  loose := hS.loose
  up := hS.up
  kids := hS.kids
  nodup := hS.nodup
  acyclic := hS.acyclic
  refs_nodup := fun d => by
    by_cases hd : d = c
    · subst hd
      rw [addRef_self]
      exact List.nodup_cons.2 ⟨fun hmem => hn ⟨d, hmem⟩, hS.refs_nodup d⟩
    · rw [addRef_ne hd]
      exact hS.refs_nodup d
  refs := fun d y hy => by
    rcases mem_addRef.1 hy with ⟨rfl, rfl⟩ | hmem
    · exact ⟨hc, hh, hl⟩
    · exact hS.refs d y hmem
  target := fun d d' y hy hy' => by
    rcases mem_addRef.1 hy with ⟨rfl, rfl⟩ | hmem
    · rcases mem_addRef.1 hy' with ⟨rfl, -⟩ | hmem'
      · rfl
      · exact absurd ⟨d', hmem'⟩ hn
    · rcases mem_addRef.1 hy' with ⟨rfl, rfl⟩ | hmem'
      · exact absurd ⟨d, hmem⟩ hn
      · exact hS.target d d' y hmem hmem'
  leaf := fun d y hy => by
    rcases mem_addRef.1 hy with ⟨rfl, rfl⟩ | hmem
    · exact ⟨(addRef_ne hne.symm).trans hrefs, hup⟩
    · have hyc : y ≠ c := by
        rintro rfl
        exact hcn ⟨d, hmem⟩
      exact ⟨(addRef_ne hyc).trans (hS.leaf d y hmem).1, (hS.leaf d y hmem).2⟩

theorem Wf.unref (hS : S.Wf) : (S.unref h c).Wf where
  zero := hS.zero
  loose := hS.loose
  up := hS.up
  kids := hS.kids
  nodup := hS.nodup
  acyclic := hS.acyclic
  refs_nodup := fun d => by
    by_cases hd : d = c
    · subst hd
      rw [unref_self]
      exact (hS.refs_nodup d).erase h
    · rw [unref_ne hd]
      exact hS.refs_nodup d
  refs := fun d y hy => hS.refs d y ((mem_unref hS).1 hy).1
  target := fun d d' y hy hy' => hS.target d d' y ((mem_unref hS).1 hy).1 ((mem_unref hS).1 hy').1
  leaf := fun d y hy => by
    have hmem := ((mem_unref hS).1 hy).1
    refine ⟨List.eq_nil_iff_forall_not_mem.2 fun z hz => ?_, (hS.leaf d y hmem).2⟩
    have hnil := ((mem_unref hS).1 hz).1
    rw [(hS.leaf d y hmem).1] at hnil
    exact List.not_mem_nil hnil

/-- The handle `h` is freed. -/
def drop (S : Shape) (h c : Nat) : Shape := ((S.unref h c).takeOut h).release h

theorem drop_up : (S.drop h c).up = S.up := rfl

theorem drop_loose (hl : h ∉ S.loose) : (S.drop h c).loose = S.loose := Finset.erase_insert hl

theorem drop_refs_self : (S.drop h c).refs c = (S.refs c).erase h := unref_self

theorem drop_refs_ne {d : Nat} (hd : d ≠ c) : (S.drop h c).refs d = S.refs d := unref_ne hd

theorem Wf.drop (hS : S.Wf) (hh : h ∈ S.refs c) : (S.drop h c).Wf := by
  have hu : (S.unref h c).Wf := hS.unref
  have hn : ¬ (S.unref h c).IsHandle h := by
    rintro ⟨d, hd⟩
    obtain ⟨hd, hne⟩ := (mem_unref hS).1 hd
    exact hne ⟨hS.target d c h hd hh, rfl⟩
  have hch : h ≠ c := by
    rintro rfl
    exact List.not_mem_nil ((hS.leaf h h hh).1 ▸ hh)
  refine (hu.takeOut (hS.refs c h hh).2.1 hn).release (Finset.mem_insert_self ..) ?_ fun d hd => ?_
  · exact (unref_ne hch).trans (hS.leaf c h hh).1
  · exact (hS.leaf c h hh).2 d hd

/-! ## Moving a chunk -/

/-- `c` is moved to the front of the children of `x`. -/
def steal (S : Shape) (c x : Nat) : Shape := (S.takeOut c).place c x

theorem steal_loose (hl : c ∉ S.loose) : (S.steal c x).loose = S.loose := Finset.erase_insert hl

theorem steal_refs : (S.steal c x).refs = S.refs := rfl

theorem steal_up_self : (S.steal c x).up c = x := place_up_self

theorem steal_up_ne {d : Nat} (hd : d ≠ c) : (S.steal c x).up d = S.up d := place_up_ne hd

theorem Wf.steal (hS : S.Wf) (hc : c ∈ S.live) (hcn : ¬ S.IsHandle c)
    (hx : x = 0 ∨ x ∈ S.live) (hbelow : x ≠ 0 → ¬ ReflTransGen S.Over c x)
    (hxn : ¬ S.IsHandle x) : (S.steal c x).Wf :=
  (hS.takeOut hc hcn).place (Finset.mem_insert_self ..) hx hbelow hxn

end Shape
end Talloc
end AnekVideo
